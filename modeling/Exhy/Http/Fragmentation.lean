import Exhy.Http.Reader
import Mathlib.Data.List.Find

/-!
# Requests in several reads

`http_parser_execute` resets `mark`, `field_start` and `field_len` at every call and leaves
`query_start` as an offset into an earlier buffer, so a part of the request that is read by
one callback is lost when a read ends inside it.  When no read does, the request is the one
that a single read gives.
-/

namespace Exhy.Http

open Library

/-! ## Callbacks on a part of the stream -/

section Slices

variable {stream packet rest : Bytes} {base : Nat}

/-- What lies in one part of the stream may be read there. -/
theorem take_drop_part (parts : stream.drop base = packet ++ rest) {start length : Nat}
    (inside : start + length ≤ packet.length ∨ rest = []) :
    (packet.drop start).take length = (stream.drop (start + base)).take length := by
  have whole : stream.drop (start + base) = (packet ++ rest).drop start := by
    rw [← parts, List.drop_drop, Nat.add_comm]
  rw [whole]
  rcases inside with fits | atEnd
  · rw [List.drop_append_of_le_length (by omega), List.take_append_of_le_length]
    rw [List.length_drop]
    omega
  · rw [atEnd, List.append_nil]

theorem text_part (parts : stream.drop base = packet ++ rest) {start : Nat} {length : Int}
    (inside : start + length.toNat ≤ packet.length ∨ rest = []) :
    text (packet.drop start) length = text (stream.drop (start + base)) length := by
  rw [text, text, take_drop_part parts inside]

/-- `strncmp` looks at no byte behind its length. -/
theorem strncmpEq_take (left right : Bytes) (length : Nat) :
    strncmpEq (left.take length) right length = strncmpEq left right length := by
  induction length generalizing left right with
  | zero => cases left <;> rfl
  | succ length ih =>
      cases left with
      | nil => rfl
      | cons byte left =>
          rw [strncmpEq, strncmpEq, List.take_succ_cons, List.headD_cons, List.tail_cons, ih]
          rfl

theorem strncmpEq_part (parts : stream.drop base = packet ++ rest) {start length : Nat}
    {right : Bytes} (inside : start + length ≤ packet.length ∨ rest = []) :
    strncmpEq (packet.drop start) right length =
      strncmpEq (stream.drop (start + base)) right length := by
  rw [← strncmpEq_take, take_drop_part parts inside, strncmpEq_take]

/-- A text without a byte is found in front of this byte or nowhere. -/
theorem isPrefixOf_stop {name word : Bytes} {stop : UInt8} (absent : stop ∉ name) (tail : Bytes) :
    name.isPrefixOf (word ++ stop :: tail) = name.isPrefixOf word := by
  induction name generalizing word with
  | nil => cases word <;> rfl
  | cons byte name ih =>
      rw [List.mem_cons, not_or] at absent
      cases word with
      | nil =>
          rw [List.nil_append, List.isPrefixOf_cons_cons, beq_false_of_ne (Ne.symm absent.1)]
          rfl
      | cons first word =>
          rw [List.cons_append, List.isPrefixOf_cons_cons, List.isPrefixOf_cons_cons, ih absent.2]

/-- The table has no blank in a method. -/
theorem no_blank_in_method : ∀ entry ∈ HTTP_METHOD_MAP, (0x20 : UInt8) ∉ entry.2 := by
  decide +kernel

/-- The method in front of a blank does not depend on what follows. -/
theorem CharsToHttpMethod_stop (word tail : Bytes) :
    CharsToHttpMethod (word ++ 0x20 :: tail) = CharsToHttpMethod word := by
  have same : HTTP_METHOD_MAP.find? (fun entry => entry.2.isPrefixOf (word ++ 0x20 :: tail)) =
      HTTP_METHOD_MAP.find? fun entry => entry.2.isPrefixOf word :=
    List.find?_congr fun entry member => isPrefixOf_stop (no_blank_in_method entry member) tail
  rw [CharsToHttpMethod, CharsToHttpMethod, same]

theorem CharsToHttpMethod_part (parts : stream.drop base = packet ++ rest) {start place : Nat}
    (before : start ≤ place) (blank : packet[place]? = some 0x20) :
    CharsToHttpMethod (packet.drop start) = CharsToHttpMethod (stream.drop (start + base)) := by
  obtain ⟨inside, isBlank⟩ := List.getElem?_eq_some_iff.mp blank
  have split : packet.drop start =
      (packet.drop start).take (place - start) ++ 0x20 :: packet.drop (place + 1) := by
    rw [← isBlank, ← List.drop_eq_getElem_cons inside]
    have behind : packet.drop place = (packet.drop start).drop (place - start) := by
      rw [List.drop_drop, Nat.add_sub_cancel' before]
    rw [behind, List.take_append_drop]
  have whole : stream.drop (start + base) = packet.drop start ++ rest := by
    rw [Nat.add_comm, ← List.drop_drop, parts, List.drop_append_of_le_length (by omega)]
  rw [whole, split, List.append_assoc, List.cons_append, CharsToHttpMethod_stop,
    CharsToHttpMethod_stop]

end Slices

/-- The registers of a call on the part from `base` on, as far as they are not older than
the part. -/
structure Tracks (base memory : Nat) (marks : Marks) (parser : HttpParser) : Prop where
  mark : base ≤ marks.mark → parser.mark + base = marks.mark
  field_start : base ≤ marks.field_start → parser.field_start + base = marks.field_start
  field_len : base ≤ marks.field.1 → parser.field_len = (marks.field.2 : Int) - marks.field.1
  query_start : ∀ start, marks.query_start = some start → base ≤ start →
    parser.query_start + base = start
  fresh : marks.query_start = none → parser.query_start = memory

section Callbacks

variable {stream packet rest : Bytes} {base memory : Nat} {marks : Marks} {parser : HttpParser}

theorem Tracks.register (tracks : Tracks base memory marks parser) (fpc : Nat)
    (action : Http11.Action) :
    Tracks base memory (marks.register (fpc + base) action) (parser.register fpc action) := by
  cases action with
  | mark | start_value =>
      exact ⟨fun _ => rfl, tracks.field_start, tracks.field_len, tracks.query_start, tracks.fresh⟩
  | start_field =>
      exact ⟨tracks.mark, fun _ => rfl, tracks.field_len, tracks.query_start, tracks.fresh⟩
  | write_field =>
      refine ⟨tracks.mark, tracks.field_start, fun young => ?_, tracks.query_start, tracks.fresh⟩
      have start := tracks.field_start young
      dsimp only [HttpParser.register, Marks.register]
      omega
  | start_query =>
      refine ⟨tracks.mark, tracks.field_start, tracks.field_len, fun start same _ => ?_, nofun⟩
      exact Option.some.inj same
  | done =>
      dsimp only [HttpParser.register]
      split
      all_goals
        exact ⟨tracks.mark, tracks.field_start, tracks.field_len, tracks.query_start, tracks.fresh⟩
  | write_value | request_method | request_uri | fragment | query_string | http_version
  | request_path | xml | json =>
      exact ⟨tracks.mark, tracks.field_start, tracks.field_len, tracks.query_start, tracks.fresh⟩

/-- A callback that reads nothing older than the part and nothing behind it. -/
theorem Tracks.callback (tracks : Tracks base memory marks parser)
    (parts : stream.drop base = packet ++ rest) {fpc : Nat} (inside : fpc < packet.length)
    (before : marks.mark ≤ fpc + base) {action : Http11.Action}
    (blank : action = .request_method → packet[fpc]? = some 0x20)
    (whole : ∀ token ∈ marks.reads (fpc + base) action,
      base ≤ token.1 ∧ (token.2 < base + packet.length ∨ rest = [])) (data : Parsed) :
    parser.callback packet fpc data action =
      marks.callback memory stream (fpc + base) data action := by
  -- a text from `mark` up to the byte in hand
  have marked : base ≤ marks.mark → parser.mark + base = marks.mark ∧
      (fpc : Int) - parser.mark = ((fpc + base : Nat) : Int) - marks.mark ∧
      parser.mark + ((fpc : Int) - parser.mark).toNat ≤ packet.length := by
    intro young
    have same := tracks.mark young
    refine ⟨same, ?_, ?_⟩ <;> omega
  cases action with
  | request_method =>
      obtain ⟨same, -, -⟩ := marked (whole _ rfl).1
      rw [HttpParser.callback, Marks.callback, Parsed.on_request_method, Parsed.on_request_method,
        CharsToHttpMethod_part parts (by omega) (blank rfl), same]
  | fragment | request_path =>
      obtain ⟨same, length, fits⟩ := marked (whole _ rfl).1
      simp only [HttpParser.callback, Marks.callback, Parsed.on_request_fragment,
        Parsed.on_request_path]
      rw [text_part parts (.inl fits), same, length]
  | http_version =>
      obtain ⟨same, length, fits⟩ := marked (whole _ rfl).1
      simp only [HttpParser.callback, Marks.callback, Parsed.on_request_version]
      rw [strncmpEq_part parts (.inl fits), strncmpEq_part parts (.inl fits), same, length]
  | query_string =>
      have same : parser.query_start + base = marks.query_start.getD memory := by
        have young := (whole _ rfl).1
        cases set : marks.query_start with
        | none =>
            dsimp only [Marks.reads] at young
            rw [set] at young
            rw [tracks.fresh set, Nat.le_zero.mp young]
            rfl
        | some start =>
            dsimp only [Marks.reads] at young
            rw [set] at young
            exact tracks.query_start start set young
      have length : (fpc : Int) - parser.query_start =
          ((fpc + base : Nat) : Int) - marks.query_start.getD memory := by omega
      simp only [HttpParser.callback, Marks.callback, Parsed.on_request_query]
      by_cases negative : (fpc : Int) - parser.query_start < 0
      · rw [text, text, if_pos negative, ← length, if_pos negative]
      · rw [text_part parts (.inl (by omega)), same, length]
  | write_value =>
      obtain ⟨young, inPart⟩ := whole _ rfl
      dsimp only at young inPart
      obtain ⟨same, length, fits⟩ := marked (by omega)
      have field := tracks.field_start (by omega)
      have flen := tracks.field_len (by omega)
      simp only [HttpParser.callback, Marks.callback, Parsed.on_request_http_field]
      rw [flen, text_part parts (.inl fits), same, length]
      by_cases negative : (marks.field.2 : Int) - marks.field.1 < 0
      · simp only [text, if_pos negative]
      · rw [text_part parts, field]
        refine inPart.imp_left fun ends => ?_
        omega
  | mark | start_field | write_field | start_value | start_query | request_uri | done | xml
  | json => rfl

/-- The events of a call at their positions in the stream. -/
def shifted (base : Nat) (events : List (Nat × Http11.Action)) : List (Nat × Http11.Action) :=
  events.map fun event => (event.1 + base, event.2)

theorem register_mark_le {place bound : Nat} (older : marks.mark ≤ bound) (ordered : place ≤ bound)
    (action : Http11.Action) : (marks.register place action).mark ≤ bound := by
  cases action with
  | mark | start_value => exact ordered
  | start_field | write_field | write_value | request_method | request_uri | fragment
  | start_query | query_string | http_version | request_path | done | xml | json => exact older

theorem shifted_cons (base fpc : Nat) (action : Http11.Action)
    (later : List (Nat × Http11.Action)) :
    shifted base ((fpc, action) :: later) = (fpc + base, action) :: shifted base later := rfl

/-- The simulation: a call on a part of the stream agrees with the reader of the stream. -/
theorem run_eq_follow (parts : stream.drop base = packet ++ rest)
    {events : List (Nat × Http11.Action)}
    (sorted : events.Pairwise fun first second => first.1 ≤ second.1)
    (inside : ∀ event ∈ events, event.1 < packet.length)
    (blank : ∀ fpc, (fpc, .request_method) ∈ events → packet[fpc]? = some 0x20)
    {parser : HttpRequestParser} (tracks : Tracks base memory marks parser.mParser)
    (before : ∀ event ∈ events, marks.mark ≤ event.1 + base)
    (whole : ∀ token ∈ Marks.tokens (shifted base events) marks,
      base ≤ token.1 ∧ (token.2 < base + packet.length ∨ rest = [])) :
    (HttpRequestParser.run packet events parser).map (·.toParsed) =
        Marks.follow memory stream (shifted base events) marks parser.toParsed ∧
      ∀ next, HttpRequestParser.run packet events parser = some next →
        Tracks base memory (marks.after (shifted base events)) next.mParser := by
  induction events generalizing marks parser with
  | nil =>
      refine ⟨rfl, fun next ran => ?_⟩
      cases ran
      exact tracks
  | cons event later ih =>
      obtain ⟨fpc, action⟩ := event
      obtain ⟨first, sorted⟩ := List.pairwise_cons.mp sorted
      have here : (fpc, action) ∈ (fpc, action) :: later := List.mem_cons_self
      have called := tracks.callback parts (inside _ here) (before _ here)
        (fun same => blank fpc (same ▸ here))
        (fun token member => whole token (List.mem_append_left _ (Option.mem_toList.mpr member)))
        parser.toParsed
      rw [shifted_cons] at whole ⊢
      rw [HttpRequestParser.run, called, Marks.follow]
      cases marks.callback memory stream (fpc + base) parser.toParsed action with
      | none => exact ⟨rfl, fun next ran => absurd ran.symm (Option.some_ne_none next)⟩
      | some data =>
          have registered : Tracks base memory (marks.register (fpc + base) action)
              (HttpRequestParser.mk data (parser.mParser.register fpc action)).mParser :=
            tracks.register fpc action
          refine ih sorted
            (fun event member => inside event (List.mem_cons_of_mem _ member))
            (fun fpc member => blank fpc (List.mem_cons_of_mem _ member))
            registered (fun event member => ?_)
            fun token member => whole token (List.mem_append_right _ member)
          exact register_mark_le (before event (List.mem_cons_of_mem _ member))
            (Nat.add_le_add_right (first event member) base) action

end Callbacks

/-! ## The loop over the reads -/

namespace Marks

/-- No register is set to a position from the bound on. -/
structure Behind (marks : Marks) (bound : Nat) : Prop where
  mark : marks.mark < bound
  field_start : marks.field_start < bound
  field : marks.field.1 < bound
  query_start : ∀ start, marks.query_start = some start → start < bound

variable {marks : Marks} {bound : Nat}

theorem Behind.mono {more : Nat} (behind : marks.Behind bound) (further : bound ≤ more) :
    marks.Behind more where
  mark := Nat.lt_of_lt_of_le behind.mark further
  field_start := Nat.lt_of_lt_of_le behind.field_start further
  field := Nat.lt_of_lt_of_le behind.field further
  query_start start same := Nat.lt_of_lt_of_le (behind.query_start start same) further

theorem Behind.register (behind : marks.Behind bound) {place : Nat} (inside : place < bound)
    (action : Http11.Action) : (marks.register place action).Behind bound := by
  cases action with
  | mark | start_value => exact ⟨inside, behind.field_start, behind.field, behind.query_start⟩
  | start_field => exact ⟨behind.mark, inside, behind.field, behind.query_start⟩
  | write_field => exact ⟨behind.mark, behind.field_start, behind.field_start, behind.query_start⟩
  | start_query =>
      refine ⟨behind.mark, behind.field_start, behind.field, fun start same => ?_⟩
      cases same
      exact inside
  | write_value | request_method | request_uri | fragment | query_string | http_version
  | request_path | done | xml | json => exact behind

theorem Behind.after (behind : marks.Behind bound) {events : List (Nat × Http11.Action)}
    (inside : ∀ event ∈ events, event.1 < bound) : (marks.after events).Behind bound := by
  induction events generalizing marks with
  | nil => exact behind
  | cons event later ih =>
      exact ih (behind.register (inside event List.mem_cons_self) event.2)
        fun other member => inside other (List.mem_cons_of_mem _ member)

/-- A stretch begins at a register and ends at its action or behind it. -/
theorem tokens_bounds (behind : marks.Behind bound) {events : List (Nat × Http11.Action)}
    (inside : ∀ event ∈ events, event.1 < bound) {token : Nat × Nat}
    (member : token ∈ tokens events marks) :
    token.1 < bound ∧ ∃ event ∈ events, event.1 ≤ token.2 := by
  induction events generalizing marks with
  | nil => cases member
  | cons event later ih =>
      obtain ⟨place, action⟩ := event
      have here := inside _ (List.mem_cons_self (a := (place, action)) (l := later))
      rcases List.mem_append.mp member with isHere | inLater
      · suffices bounds : token.1 < bound ∧ place ≤ token.2 from
          ⟨bounds.1, _, List.mem_cons_self, bounds.2⟩
        have read := Option.mem_toList.mp isHere
        have mark := behind.mark
        cases action with
        | write_value =>
            cases read
            dsimp only
            omega
        | request_method | fragment | http_version | request_path =>
            cases read
            exact ⟨mark, Nat.le_refl _⟩
        | query_string =>
            cases read
            refine ⟨?_, Nat.le_refl _⟩
            dsimp only
            cases set : marks.query_start with
            | none => exact Nat.lt_of_le_of_lt (Nat.zero_le _) mark
            | some start => exact behind.query_start start set
        | _ => cases read
      · obtain ⟨starts, event, isEvent, ends⟩ :=
          ih (behind.register here action)
            (fun other member => inside other (List.mem_cons_of_mem _ member)) inLater
        exact ⟨starts, event, List.mem_cons_of_mem _ isEvent, ends⟩

end Marks

/-- The positions at which a read ends, other than the end of the stream. -/
def cuts : (base : Nat) → Socket → List Nat
  | _, [] | _, [_] => []
  | base, packet :: next :: later =>
      (base + packet.length) :: cuts (base + packet.length) (next :: later)

/-- No cut lies inside a stretch, or right behind it. -/
def Uncut (tokens : List (Nat × Nat)) (cuts : List Nat) : Prop :=
  ∀ token ∈ tokens, ∀ cut ∈ cuts, ¬ (token.1 < cut ∧ cut ≤ token.2)

instance (tokens : List (Nat × Nat)) (cuts : List Nat) : Decidable (Uncut tokens cuts) :=
  inferInstanceAs (Decidable (∀ token ∈ tokens, ∀ cut ∈ cuts, ¬ (token.1 < cut ∧ cut ≤ token.2)))

namespace HttpSession

open Machine HttpRequestParser

/-- The parser between two calls: what it has read so far is behind `base`. -/
structure Resumes (base memory : Nat) (marks : Marks) (parser : HttpRequestParser) : Prop where
  ends : EndsWith .done parser.mParser.cs
  blank : PerformsOn [(0x20, 0x20)] .request_method parser.mParser.cs
  tracks : Tracks base memory marks parser.reset.mParser
  behind : marks.Behind (base + 1)

section Loop

variable {stream : Bytes} {base memory : Nat} {marks : Marks} {parser : HttpRequestParser}
  {packet rest : Bytes}

/-- No register is as young as the next part when its call resets them. -/
theorem tracks_of_behind (behind : marks.Behind base)
    (fresh : marks.query_start = none → parser.mParser.query_start = memory) :
    Tracks base memory marks parser.reset.mParser where
  mark young := absurd behind.mark (Nat.not_lt.mpr young)
  field_start young := absurd behind.field_start (Nat.not_lt.mpr young)
  field_len young := absurd behind.field (Nat.not_lt.mpr young)
  query_start start same young := absurd (behind.query_start start same) (Nat.not_lt.mpr young)
  fresh := fresh

theorem scan_performs (blank : PerformsOn [(0x20, 0x20)] .request_method parser.mParser.cs)
    {fpc : Nat} (member : (fpc, .request_method) ∈ (scan breaks packet 0 parser.mParser.cs).events) :
    packet[fpc]? = some 0x20 := by
  obtain ⟨code, isCode, isBlank⟩ := scan_performsOn blank member
  rw [Nat.sub_zero] at isCode
  rw [isCode]
  simp only [inRanges, List.any_cons, List.any_nil, Bool.or_false, Bool.and_eq_true,
    decide_eq_true_eq] at isBlank
  have same : code = 0x20 := UInt8.le_antisymm isBlank.2 isBlank.1
  rw [same]

theorem broke_eq_final {cs : List (Machine Http11.Action)} (ends : EndsWith .done cs)
    (nonempty : packet ≠ []) :
    (scan breaks packet base cs).broke = final (scan breaks packet base cs).state :=
  scan_endsWith ends nonempty

/-- One call: the reader's events of this part, the request they make, and the state. -/
theorem execute_part (nonempty : packet ≠ []) (going : parser.mParser.cs ≠ [])
    (resumes : Resumes base memory marks parser) (parts : stream.drop base = packet ++ rest)
    (whole : ∀ token ∈ Marks.tokens (scan breaks packet base parser.mParser.cs).events marks,
      base ≤ token.1 ∧ (token.2 < base + packet.length ∨ rest = []))
    {data : Parsed} (followed : Marks.follow memory stream
      (scan breaks packet base parser.mParser.cs).events marks parser.toParsed = some data) :
    ∃ next, parser.execute packet = some (next,
        packet.drop ((scan breaks packet base parser.mParser.cs).position - base)) ∧
      next.toParsed = data ∧ next.mParser.cs = (scan breaks packet base parser.mParser.cs).state ∧
      ((marks.after (scan breaks packet base parser.mParser.cs).events).query_start = none →
        next.mParser.query_start = memory) := by
  have shift : scan breaks packet base parser.mParser.cs =
      (scan breaks packet 0 parser.mParser.cs).shift base := by
    rw [← scan_shift, Nat.zero_add]
  rw [shift] at whole followed ⊢
  obtain ⟨same, tracked⟩ := run_eq_follow parts (scan_sorted packet 0 parser.mParser.cs)
    (fun event member => Nat.zero_add packet.length ▸ (mem_scan member).2)
    (fun fpc member => scan_performs resumes.blank member) resumes.tracks
    (fun event _ => Nat.le_trans (Nat.le_of_lt_succ resumes.behind.mark) (Nat.le_add_left ..)) whole
  rw [show Marks.follow memory stream (shifted base _) marks parser.reset.toParsed = _ from followed,
    Option.map_eq_some_iff] at same
  obtain ⟨next, ran, rfl⟩ := same
  refine ⟨{ next with mParser :=
      { next.mParser with
        cs := (scan breaks packet 0 parser.mParser.cs).state
        nread := (scan breaks packet 0 parser.mParser.cs).position } }, ?_, rfl, rfl,
    (tracked next ran).fresh⟩
  rw [execute_eq nonempty going, ran]
  simp [Scan.shift]

/-- The reads that bring the rest of a request that ends in this part of the stream, and
that cut no stretch that is read. -/
structure Arrives (stream : Bytes) (base buff_size : Nat) (socket : Socket) (marks : Marks)
    (parser : HttpRequestParser) : Prop where
  small : buff_size < 2 ^ 31
  full : socket.Full
  fits : ∀ packet ∈ socket, packet.length ≤ buff_size
  rest : stream.drop base = socket.flatten
  broke : (scan breaks socket.flatten base parser.mParser.cs).broke = true
  uncut : Uncut (Marks.tokens (scan breaks socket.flatten base parser.mParser.cs).events marks)
    (base :: cuts base socket)

theorem read_packet {buff_size : Nat} {later : Socket} (fits : packet.length ≤ buff_size) :
    read (buff_size - ([] : Bytes).length) (packet :: later) = (packet, later) := by
  rw [List.length_nil, Nat.sub_zero, read, if_pos fits, List.take_of_length_le fits]

/-- The stretches that are read in the first read lie inside it. -/
theorem Arrives.whole {buff_size : Nat} {later : Socket}
    (arrives : Arrives stream base buff_size (packet :: later) marks parser)
    (behind : marks.Behind (base + 1)) (full : Socket.Full later)
    (part : ∀ token ∈ Marks.tokens (scan breaks packet base parser.mParser.cs).events marks,
      token ∈ Marks.tokens (scan breaks (packet :: later).flatten base parser.mParser.cs).events
        marks) :
    ∀ token ∈ Marks.tokens (scan breaks packet base parser.mParser.cs).events marks,
      base ≤ token.1 ∧ (token.2 < base + packet.length ∨ later.flatten = []) := by
  intro token member
  have nonempty : packet ≠ [] := arrives.full packet List.mem_cons_self
  have positive : 0 < packet.length := List.length_pos_of_ne_nil nonempty
  obtain ⟨starts, event, isEvent, ends⟩ := Marks.tokens_bounds
    (behind.mono (Nat.add_le_add_left positive base)) (fun event isEvent => (mem_scan isEvent).2)
    member
  have place := (mem_scan isEvent).1
  have atBase := arrives.uncut token (part token member) base List.mem_cons_self
  refine ⟨by omega, ?_⟩
  cases later with
  | nil => exact .inr rfl
  | cons next later =>
      have atEnd := arrives.uncut token (part token member) (base + packet.length)
        (List.mem_cons_of_mem _ List.mem_cons_self)
      left
      omega

/-- A call behind which the loop ends. -/
theorem recvHeader_finished {buff_size fuel : Nat} {socket later : Socket} {left : Bytes}
    {next : HttpRequestParser} (small : buff_size < 2 ^ 31)
    (got : read (buff_size - ([] : Bytes).length) socket = (packet, later))
    (nonempty : packet ≠ []) (executed : parser.execute packet = some (next, left))
    (noError : next.m_error = 0) (isFinal : final next.mParser.cs = true)
    (short : left.length < buff_size) :
    recvHeader buff_size (fuel + 1) parser [] socket = .ok (next, left, later) := by
  have alive : next.mParser.cs ≠ [] := by
    intro error
    rw [error] at isFinal
    cases isFinal
  have isOk : next.hasError = false := by
    simp [hasError, http_parser_has_error, noError, alive]
  have notFull : (left.length : Int) ≠ toInt32 buff_size := by
    rw [toInt32_of_small small]
    omega
  have isFinished : next.isFinished ≠ 0 := by
    simp [HttpRequestParser.isFinished, http_parser_finish, http_parser_has_error,
      http_parser_is_finished, alive, isFinal]
  rw [recvHeader, got]
  dsimp only
  rw [if_neg nonempty, List.nil_append, executed]
  dsimp only
  rw [isOk, if_neg Bool.false_ne_true, if_neg notFull, if_pos isFinished]

/-- A request that ends in the first read. -/
theorem recvHeader_last {buff_size fuel : Nat} {later : Socket}
    (resumes : Resumes base memory marks parser)
    (arrives : Arrives stream base buff_size (packet :: later) marks parser)
    (broke : (scan breaks packet base parser.mParser.cs).broke = true) {data : Parsed}
    (followed : Marks.follow memory stream
      (scan breaks (packet :: later).flatten base parser.mParser.cs).events marks
      parser.toParsed = some data) (noError : data.m_error = 0) :
    ∃ next left, recvHeader buff_size (fuel + 1) parser [] (packet :: later) =
        .ok (next, left, later) ∧ next.toParsed = data ∧ left ++ later.flatten =
          stream.drop (scan breaks (packet :: later).flatten base parser.mParser.cs).position := by
  have nonempty : packet ≠ [] := arrives.full packet List.mem_cons_self
  have fits : packet.length ≤ buff_size := arrives.fits packet List.mem_cons_self
  have stopped : (scan breaks packet base parser.mParser.cs).stopped = true := by
    rw [Scan.stopped, broke]
    rfl
  have going : parser.mParser.cs ≠ [] := by
    intro error
    rw [error, scan_error] at broke
    cases broke
  have whole := arrives.whole resumes.behind arrives.full.tail fun token member => by
    rwa [List.flatten_cons, scan_append_stopped _ stopped]
  have parts : stream.drop base = packet ++ later.flatten := by
    rw [arrives.rest, List.flatten_cons]
  rw [List.flatten_cons, scan_append_stopped _ stopped] at followed ⊢
  obtain ⟨next, executed, rfl, cs, -⟩ :=
    execute_part nonempty going resumes parts whole followed
  obtain ⟨behind, inside⟩ := position_of_broke broke
  have isFinal : final next.mParser.cs = true := by
    rw [cs, ← broke_eq_final resumes.ends nonempty]
    exact broke
  refine ⟨next, packet.drop ((scan breaks packet base parser.mParser.cs).position - base), ?_, rfl,
    ?_⟩
  · refine recvHeader_finished arrives.small (read_packet fits) nonempty executed noError isFinal ?_
    rw [List.length_drop]
    omega
  · rw [← List.drop_append_of_le_length (by omega), ← parts, List.drop_drop]
    congr 1
    omega

/-- A read that the request goes on behind. -/
theorem recvHeader_more {buff_size fuel : Nat} {later : Socket}
    (resumes : Resumes base memory marks parser)
    (arrives : Arrives stream base buff_size (packet :: later) marks parser)
    (running : (scan breaks packet base parser.mParser.cs).stopped = false) {data : Parsed}
    (followed : Marks.follow memory stream
      (scan breaks (packet :: later).flatten base parser.mParser.cs).events marks
      parser.toParsed = some data) (noError : data.m_error = 0) :
    ∃ (next : HttpRequestParser) (after : Marks),
      recvHeader buff_size (fuel + 1) parser [] (packet :: later) =
        recvHeader buff_size fuel next [] later ∧
      Resumes (base + packet.length) memory after next ∧
      Arrives stream (base + packet.length) buff_size later after next ∧
      Marks.follow memory stream
        (scan breaks later.flatten (base + packet.length) next.mParser.cs).events after
        next.toParsed = some data ∧
      (scan breaks (packet :: later).flatten base parser.mParser.cs).position =
        (scan breaks later.flatten (base + packet.length) next.mParser.cs).position := by
  have nonempty : packet ≠ [] := arrives.full packet List.mem_cons_self
  have fits : packet.length ≤ buff_size := arrives.fits packet List.mem_cons_self
  have positive : 0 < packet.length := List.length_pos_of_ne_nil nonempty
  have halves := Bool.or_eq_false_iff.mp running
  have alive : (scan breaks packet base parser.mParser.cs).state ≠ [] := by
    simpa using halves.2
  have going : parser.mParser.cs ≠ [] := by
    intro error
    rw [error, scan_error] at alive
    exact alive rfl
  have onward : scan breaks (packet :: later).flatten base parser.mParser.cs =
      (scan breaks later.flatten (base + packet.length)
        (scan breaks packet base parser.mParser.cs).state).after
          (scan breaks packet base parser.mParser.cs).events := by
    rw [List.flatten_cons, scan_append_running _ running]
  have whole := arrives.whole resumes.behind arrives.full.tail fun token member => by
    rw [onward, Scan.after, Marks.tokens_append]
    exact List.mem_append_left _ member
  have parts : stream.drop base = packet ++ later.flatten := by
    rw [arrives.rest, List.flatten_cons]
  rw [onward, Scan.after, Marks.follow_append] at followed
  obtain ⟨mid, followedPart, followedRest⟩ := Option.bind_eq_some_iff.mp followed
  have midOk : mid.m_error = 0 := by
    by_contra error
    exact Marks.error_of_follow followedRest error noError
  obtain ⟨next, executed, rfl, cs, fresh⟩ :=
    execute_part nonempty going resumes parts whole followedPart
  have behind : (marks.after (scan breaks packet base parser.mParser.cs).events).Behind
      (base + packet.length) :=
    (resumes.behind.mono (Nat.add_le_add_left positive base)).after fun event member =>
      (mem_scan member).2
  have nothing : packet.drop ((scan breaks packet base parser.mParser.cs).position - base) = [] := by
    rw [position_of_running running, Nat.add_sub_cancel_left, List.drop_length]
  rw [nothing] at executed
  have notFinal : final next.mParser.cs = false := by
    rw [cs, ← broke_eq_final resumes.ends nonempty]
    exact halves.1
  rw [← cs] at alive followedRest onward
  have isOk : next.hasError = false := by
    simp [hasError, http_parser_has_error, midOk, alive]
  have notFull : (([] : Bytes).length : Int) ≠ toInt32 buff_size := by
    rw [toInt32_of_small arrives.small, List.length_nil]
    omega
  have unfinished : ¬ next.isFinished ≠ 0 := by
    simp [HttpRequestParser.isFinished, http_parser_finish, http_parser_has_error,
      http_parser_is_finished, alive, notFinal]
  have resumed : Resumes (base + packet.length) memory
      (marks.after (scan breaks packet base parser.mParser.cs).events) next := by
    refine ⟨?_, ?_, tracks_of_behind behind fresh, behind.mono (Nat.le_succ _)⟩
    · rw [cs]
      exact scan_keeps (EndsWith Http11.Action.done)
        (fun _ => (absurd · List.not_mem_nil)) (fun ends stepped => (step_endsWith ends stepped).1)
        resumes.ends
    · rw [cs]
      exact scan_keeps (PerformsOn [(0x20, 0x20)] Http11.Action.request_method)
        (fun _ => (absurd · List.not_mem_nil))
        (fun performs stepped => (step_performsOn performs stepped).1) resumes.blank
  have broke := arrives.broke
  have uncut := arrives.uncut
  rw [onward] at broke uncut
  have sameCuts : cuts base (packet :: later) =
      (base + packet.length) :: cuts (base + packet.length) later := by
    cases later with
    | nil => cases broke
    | cons second later => rfl
  have rest : Arrives stream (base + packet.length) buff_size later
      (marks.after (scan breaks packet base parser.mParser.cs).events) next := by
    refine ⟨arrives.small, arrives.full.tail,
      fun other member => arrives.fits other (List.mem_cons_of_mem _ member), ?_, broke, ?_⟩
    · rw [← List.drop_drop, parts, List.drop_left]
    · rw [sameCuts] at uncut
      intro token member cut isCut
      refine uncut token ?_ cut (List.mem_cons_of_mem _ isCut)
      rw [Scan.after, Marks.tokens_append]
      exact List.mem_append_right _ member
  refine ⟨next, _, ?_, resumed, rest, followedRest, by rw [onward]; rfl⟩
  rw [recvHeader, read_packet fits]
  dsimp only
  rw [if_neg nonempty, List.nil_append, executed]
  dsimp only
  rw [isOk, if_neg Bool.false_ne_true, if_neg notFull, if_neg unfinished]

/-- The loop makes the request that the reader of the stream makes, and leaves what comes
behind the header. -/
theorem recvHeader_eq {buff_size fuel : Nat} {socket : Socket}
    (resumes : Resumes base memory marks parser)
    (arrives : Arrives stream base buff_size socket marks parser) {data : Parsed}
    (followed : Marks.follow memory stream (scan breaks socket.flatten base parser.mParser.cs).events
      marks parser.toParsed = some data) (noError : data.m_error = 0)
    (enough : socket.length < fuel) :
    ∃ next left later, recvHeader buff_size fuel parser [] socket = .ok (next, left, later) ∧
      next.toParsed = data ∧ Socket.Full later ∧ left ++ later.flatten =
        stream.drop (scan breaks socket.flatten base parser.mParser.cs).position := by
  induction socket generalizing base marks parser fuel with
  | nil => cases arrives.broke
  | cons packet later ih =>
      obtain ⟨fuel, rfl⟩ : ∃ less, fuel = less + 1 := ⟨fuel - 1, by omega⟩
      cases stopped : (scan breaks packet base parser.mParser.cs).stopped with
      | true =>
          have broke := arrives.broke
          rw [List.flatten_cons, scan_append_stopped _ stopped] at broke
          obtain ⟨next, left, received, same, rest⟩ :=
            recvHeader_last resumes arrives broke followed noError
          exact ⟨next, left, later, received, same, arrives.full.tail, rest⟩
      | false =>
          obtain ⟨next, after, onward, resumed, rest, followedRest, position⟩ :=
            recvHeader_more resumes arrives stopped followed noError
          rw [onward, position]
          exact ih resumed rest followedRest (by simpa using enough)

end Loop

/-! ## Receiving the request -/

theorem main_endsWith (uri_relaxed : Bool) :
    (Http11.Grammar.main uri_relaxed).endsWith .done = true := by
  cases uri_relaxed
  · decide +kernel
  · decide +kernel

/-- A method is looked at on the blank behind it. -/
theorem main_performedOn (uri_relaxed : Bool) :
    (Http11.Grammar.main uri_relaxed).performedOn [(0x20, 0x20)] .request_method false = true := by
  cases uri_relaxed
  · decide +kernel
  · decide +kernel

/-- The run of the machine over a stream. -/
def scanned (memory : HttpParser) (stream : Bytes) : Scan Http11.Action :=
  scan breaks stream 0 [Http11.Grammar.main memory.uri_relaxed]

/-- The stretches of a stream that the callbacks read: the method, the path, the query, the
fragment, the version, and each header from its name to the end of its value. -/
def requestTokens (memory : HttpParser) (stream : Bytes) : List (Nat × Nat) :=
  Marks.tokens (scanned memory stream).events {}

/-- The reader of the stream finds the end of a header, and this is what it has read. -/
structure HeaderOf (memory : HttpParser) (stream : Bytes) (data : Parsed) : Prop where
  broke : (scanned memory stream).broke = true
  followed : Marks.follow memory.query_start stream (scanned memory stream).events {} {} = some data
  noError : data.m_error = 0

theorem resumes_init (memory : HttpParser) :
    Resumes 0 memory.query_start {} (.init memory) where
  ends machine member := by
    rw [List.mem_singleton.mp member]
    exact main_endsWith memory.uri_relaxed
  blank machine member := by
    rw [List.mem_singleton.mp member]
    exact main_performedOn memory.uri_relaxed
  tracks := ⟨fun _ => rfl, fun _ => rfl, fun _ => rfl, nofun, fun _ => rfl⟩
  behind := ⟨Nat.one_pos, Nat.one_pos, Nat.one_pos, nofun⟩

/-- The length of the body, as `recvRequest` keeps it. -/
def contentLength (request : HttpRequest) : Int :=
  toInt32 (request.getHeaderAsUInt64 (ascii "content-length") 0).toNat

/-- The body of `length` bytes that a request has in what follows its header. -/
def bodyOf (length : Int) (request : HttpRequest) (rest : Bytes) : Except Stop HttpRequest :=
  if 0 < length then
    if length ≤ rest.length then .ok { request with m_body := rest.take length.toNat }.init
    else .error .closed
  else .ok request.init

/-- The body does not depend on how much of it came with the header. -/
theorem recvBody_eq (length : Int) (request : HttpRequest) (data : Bytes) {socket : Socket}
    (full : socket.Full) :
    recvBody length request data socket = (bodyOf length request (data ++ socket.flatten)).map
      fun request => (request, socket.skip (length.toNat - data.length)) := by
  rw [recvBody, bodyOf]
  by_cases body : 0 < length
  · rw [if_pos body, if_pos body]
    by_cases more : 0 < length - data.length
    · have rest := readFixSize_spec full (Nat.le_refl (length - data.length).toNat)
      have size : length.toNat - data.length = (length - data.length).toNat := by omega
      have front : length ≥ (data.length : Int) := by omega
      have total : ((data ++ socket.flatten).length : Int) = data.length + socket.flatten.length := by
        rw [List.length_append]
        rfl
      dsimp only
      rw [if_pos more, if_pos front]
      by_cases enough : (length - data.length).toNat ≤ socket.flatten.length
      · rw [if_pos enough] at rest
        obtain ⟨later, result, -⟩ := rest
        have whole : (data ++ socket.flatten).take length.toNat =
            data ++ socket.flatten.take (length - data.length).toNat := by
          rw [List.take_append, List.take_of_length_le (by omega), size]
        rw [result, if_pos (by omega), whole, size, readFixSize_skip full result]
        rfl
      · rw [if_neg enough] at rest
        rw [rest, if_neg (by omega)]
        rfl
    · have within : length ≤ ((data ++ socket.flatten).length : Int) := by
        rw [List.length_append]
        omega
      have whole : (data ++ socket.flatten).take length.toNat =
          if length ≥ data.length then data else data.take length.toNat := by
        rw [List.take_append_of_le_length (by omega)]
        split
        · rw [List.take_of_length_le (by omega)]
        · rfl
      have none : length.toNat - data.length = 0 := by omega
      dsimp only
      rw [if_neg more, if_pos within, whole, none, Socket.skip_zero full]
      rfl
  · have none : length.toNat - data.length = 0 := by omega
    rw [if_neg body, if_neg body, none, Socket.skip_zero full]
    rfl

theorem map_fst {result : Except Stop HttpRequest} {later : Socket} :
    (result.map fun request => (request, later)).map Prod.fst = result := by
  cases result <;> rfl

/-! ## One read and several -/

/-- What a call on the whole stream has read. -/
theorem followed_of_execute {memory : HttpParser} {bytes left : Bytes} {next : HttpRequestParser}
    (nonempty : bytes ≠ []) (executed : (init memory).execute bytes = some (next, left)) :
    Marks.follow memory.query_start bytes (scanned memory bytes).events {} {} = some next.toParsed ∧
      next.mParser.cs = (scanned memory bytes).state := by
  have resumes := resumes_init memory
  have parts : bytes.drop 0 = bytes ++ [] := (List.append_nil bytes).symm
  obtain ⟨same, -⟩ := run_eq_follow parts
    (scan_sorted bytes 0 (init memory).mParser.cs)
    (fun event member => Nat.zero_add bytes.length ▸ (mem_scan member).2)
    (fun fpc member => scan_performs resumes.blank member) resumes.tracks
    (fun event _ => Nat.zero_le _) (fun token _ => ⟨Nat.zero_le _, .inr rfl⟩)
  have events : shifted 0 (scan breaks bytes 0 (init memory).mParser.cs).events =
      (scanned memory bytes).events := List.map_id _
  rw [execute_eq nonempty (List.cons_ne_nil _ _), Option.map_eq_some_iff] at executed
  obtain ⟨ran, isRan, rfl, rfl⟩ := executed
  rw [isRan, events] at same
  exact ⟨same.symm, rfl⟩

/-- A header that arrives in one read. -/
theorem header_of_whole {memory : HttpParser} {size fuel : Nat} {bytes left : Bytes}
    {parser : HttpRequestParser} {later : Socket} (fits : bytes.length ≤ size)
    (received : recvHeader size fuel (init memory) [] [bytes] = .ok (parser, left, later)) :
    HeaderOf memory bytes parser.toParsed ∧ bytes ≠ [] := by
  cases fuel with
  | zero => cases received
  | succ fuel =>
      rw [recvHeader, read_packet fits] at received
      dsimp only at received
      split at received
      next => cases received
      next nonempty =>
        rw [List.nil_append] at received
        split at received
        next => cases received
        next next data executed =>
          obtain ⟨followed, cs⟩ := followed_of_execute nonempty executed
          split at received
          next => cases received
          next isOk =>
            split at received
            next => cases received
            next =>
              split at received
              next isFinished =>
                cases received
                have halves : parser.m_error = 0 ∧ parser.mParser.cs ≠ [] := by
                  simpa [hasError, http_parser_has_error] using isOk
                have isFinal : final parser.mParser.cs = true := by
                  by_contra running
                  apply isFinished
                  simp [HttpRequestParser.isFinished, http_parser_finish, http_parser_has_error,
                    http_parser_is_finished, halves.2, running]
                have broke : (scanned memory bytes).broke = final (scanned memory bytes).state :=
                  broke_eq_final (resumes_init memory).ends nonempty
                refine ⟨⟨?_, followed, halves.1⟩, nonempty⟩
                rw [broke, ← cs]
                exact isFinal
              next =>
                cases fuel with
                | zero => cases received
                | succ fuel =>
                    rw [recvHeader, read] at received
                    cases received

theorem recvRequest_of_header {memory : HttpParser} {size : Nat} {socket later : Socket}
    {parser : HttpRequestParser} {left : Bytes}
    (received : recvHeader size (socket.flatten.length + 1) (init memory) [] socket =
      .ok (parser, left, later)) :
    recvRequest memory size socket =
      recvBody (contentLength parser.m_data) parser.m_data left later := by
  rw [recvRequest, received]
  rfl

/-- A header that is cut between the stretches gives what it gives in one read. -/
theorem recvRequest_uncut {memory : HttpParser} {buff_size : Nat} {socket : Socket}
    {data : Parsed} (small : buff_size < 2 ^ 31) (full : socket.Full)
    (fits : ∀ packet ∈ socket, packet.length ≤ buff_size)
    (header : HeaderOf memory socket.flatten data)
    (uncut : Uncut (requestTokens memory socket.flatten) (cuts 0 socket)) :
    (recvRequest memory buff_size socket).map Prod.fst =
      bodyOf (contentLength data.m_data) data.m_data
        (socket.flatten.drop (scanned memory socket.flatten).position) := by
  have arrives : Arrives socket.flatten 0 buff_size socket {} (init memory) := by
    constructor
    case uncut =>
      intro token member cut isCut
      rcases List.mem_cons.mp isCut with rfl | isCut
      · exact fun inside => absurd inside.1 (Nat.not_lt_zero _)
      · exact uncut token member cut isCut
    case small => exact small
    case full => exact full
    case fits => exact fits
    case rest => exact List.drop_zero
    case broke => exact header.broke
  obtain ⟨next, left, later, received, rfl, fullLater, rest⟩ :=
    recvHeader_eq (resumes_init memory) arrives header.followed header.noError
      (Nat.lt_succ_of_le full.length_le)
  rw [recvRequest_of_header received, recvBody_eq _ _ _ fullLater, rest]
  exact map_fst

/-- The reads do not matter as long as none ends inside a stretch that is read. -/
theorem recvRequest_eq {memory : HttpParser} {buff_size whole_size : Nat} {socket rest : Socket}
    {request : HttpRequest} (small : buff_size < 2 ^ 31) (full : socket.Full)
    (fits : ∀ packet ∈ socket, packet.length ≤ buff_size)
    (wholeSmall : whole_size < 2 ^ 31) (wholeFits : socket.flatten.length ≤ whole_size)
    (whole : recvRequest memory whole_size [socket.flatten] = .ok (request, rest))
    (uncut : Uncut (requestTokens memory socket.flatten) (cuts 0 socket)) :
    (recvRequest memory buff_size socket).map Prod.fst = .ok request := by
  have one : [socket.flatten].flatten = socket.flatten := List.flatten_singleton
  cases received : recvHeader whole_size ([socket.flatten].flatten.length + 1) (init memory) []
      [socket.flatten] with
  | error stop =>
      rw [recvRequest, received] at whole
      cases whole
  | ok result =>
      obtain ⟨parser, left, later⟩ := result
      obtain ⟨header, nonempty⟩ := header_of_whole wholeFits received
      have single : (recvRequest memory whole_size [socket.flatten]).map Prod.fst =
          bodyOf (contentLength parser.m_data) parser.m_data
            (socket.flatten.drop (scanned memory socket.flatten).position) := by
        have again := recvRequest_uncut wholeSmall
          (show Socket.Full [socket.flatten] from
            fun packet member => by rwa [List.mem_singleton.mp member])
          (fun packet member => by rwa [List.mem_singleton.mp member])
          (by rwa [one]) nofun
        rwa [one] at again
      rw [recvRequest_uncut small full fits header uncut, ← single, whole]
      rfl

/-- Memory of a parser that holds nothing but zeros. -/
def zeros : HttpParser := ⟨[], 0, 0, 0, 0, 0, 0, 0, false, false, false⟩

/-- A request in reads that end between its parts. -/
def lines : Socket :=
  [ascii "GET ", ascii "/a?b HTTP/1.1\r\n", ascii "A: b\r\n\r", ascii "\n"]

theorem recvRequest_eq_lines :
    (recvRequest zeros 4096 lines).map Prod.fst =
      .ok { m_path := ascii "/a", m_query := ascii "b", m_headers := [(ascii "A", ascii "b")] } := by
  have whole : recvRequest zeros 4096 [lines.flatten] =
      .ok ({ m_path := ascii "/a", m_query := ascii "b", m_headers := [(ascii "A", ascii "b")] },
        []) := by
    decide +kernel
  exact recvRequest_eq (by decide) (by decide) (by decide) (by decide) (by decide) whole
    (by decide +kernel)

/-- A read that ends inside the method. -/
theorem method_cut :
    (recvRequest zeros 4096 [ascii "GE", ascii "T / HTTP/1.1\r\n\r\n"]).map Prod.fst =
        .error .closed ∧
      (recvRequest zeros 4096 [ascii "GET / HTTP/1.1\r\n\r\n"]).map Prod.fst = .ok {} := by
  constructor
  · decide +kernel
  · decide +kernel

end HttpSession

end Exhy.Http
