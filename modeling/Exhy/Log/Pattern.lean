import Exhy.Log.Core

/-!
# Patterns of formatters

The items that `LogFormatter::init` makes of a pattern and what they print.  A pattern that was
rendered from texts and directives gives them back where no text has a percent sign.  The time is
printed by the C library.
-/

namespace Exhy.Log

open Library

/-! ## Items -/

/-- What the items print of an event.  Its constructor leaves `m_fiberId` as it is. -/
structure LogEvent where
  m_file : Bytes
  m_line : Int32
  m_elapse : UInt32
  m_threadId : UInt32
  m_fiberId : UInt32 := 0
  m_time : UInt64
  m_threadName : Bytes
  getContent : Bytes
  loggerName : Bytes

/-- The classes of the items. -/
inductive FormatItem where
  | message
  | level
  | elapse
  | threadId
  | fiberId
  | dateTime (m_format : Bytes)
  | filename
  | line
  | newLine
  | threadName
  | string (m_string : Bytes)
  | tab
  | name
  deriving DecidableEq, Repr

namespace FormatItem

/-- The constructor of `DateTimeFormatItem`. -/
def ofFormat (format : Bytes) : FormatItem :=
  .dateTime (if format = [] then ascii "%Y-%m-%d %H:%M:%S" else format)

/-- `s_format_items`: the names, and what is made of a format. -/
def makers : List (Bytes × (Bytes → FormatItem)) :=
  [(ascii "m", fun _ => .message), (ascii "p", fun _ => .level), (ascii "r", fun _ => .elapse),
    (ascii "c", fun _ => .name), (ascii "t", fun _ => .threadId), (ascii "n", fun _ => .newLine),
    (ascii "d", ofFormat), (ascii "f", fun _ => .filename), (ascii "l", fun _ => .line),
    (ascii "T", fun _ => .tab), (ascii "F", fun _ => .fiberId), (ascii "N", fun _ => .threadName)]

/-- `os << line` of an integer. -/
def printed (line : Int) : Bytes :=
  if line < 0 then ascii "-" ++ decimal line.natAbs else decimal line.natAbs

/-- `format(os, logger, level, event)`, with what it prints.  `strftime` prints a time of the
zone of the program. -/
def format (strftime : Bytes → UInt64 → Bytes) (level : Level) (event : LogEvent) :
    FormatItem → Bytes
  | .message => event.getContent
  | .level => LogLevel.toString level
  | .elapse => decimal event.m_elapse.toNat
  | .threadId => decimal event.m_threadId.toNat
  | .fiberId => decimal event.m_fiberId.toNat
  | .dateTime m_format => strftime (c_str m_format) event.m_time
  | .filename => c_str event.m_file
  | .line => printed event.m_line.toInt
  | .newLine => [0x0A]
  | .threadName => event.m_threadName
  | .string m_string => m_string
  | .tab => [0x09]
  | .name => event.loggerName

end FormatItem

namespace LogFormatter

/-- The item that is pushed for a part. -/
def Part.formatItem : Part → FormatItem
  | .text str => .string str
  | .item str fmt =>
      match FormatItem.makers.find? fun maker => maker.1 = str with
      | none => .string (ascii "<<error_format %" ++ str ++ ascii ">>")
      | some maker => maker.2 fmt
  | .unclosed => .string (ascii "<<pattern_error>>")

def m_items (formatter : LogFormatter) : List FormatItem :=
  (parts formatter.m_pattern.length [] formatter.m_pattern).map Part.formatItem

/-- `format(logger, level, event)` -/
def format (strftime : Bytes → UInt64 → Bytes) (formatter : LogFormatter) (level : Level)
    (event : LogEvent) : Bytes :=
  formatter.m_items.flatMap (FormatItem.format strftime level event)

end LogFormatter

/-! ## Segments -/

inductive Directive where
  | message
  | level
  | elapse
  | name
  | threadId
  | newLine
  | dateTime
  | filename
  | line
  | tab
  | fiberId
  | threadName
  deriving DecidableEq, Repr

namespace Directive

def letter : Directive → UInt8
  | .message => 0x6D
  | .level => 0x70
  | .elapse => 0x72
  | .name => 0x63
  | .threadId => 0x74
  | .newLine => 0x6E
  | .dateTime => 0x64
  | .filename => 0x66
  | .line => 0x6C
  | .tab => 0x54
  | .fiberId => 0x46
  | .threadName => 0x4E

/-- What prints the directive with its argument. -/
def item (fmt : Bytes) : Directive → FormatItem
  | .message => .message
  | .level => .level
  | .elapse => .elapse
  | .name => .name
  | .threadId => .threadId
  | .newLine => .newLine
  | .dateTime => .ofFormat fmt
  | .filename => .filename
  | .line => .line
  | .tab => .tab
  | .fiberId => .fiberId
  | .threadName => .threadName

end Directive

/-- An argument of a directive. -/
structure Argument where
  text : Bytes
  closed : 0x7D ∉ text

/-- A text, or a directive that may have an argument. -/
inductive Segment where
  | literal (text : Bytes)
  | directive (kind : Directive) (fmt : Option Argument)

namespace Segment

/-- A text with its percent signs doubled. -/
def escape (text : Bytes) : Bytes :=
  text.flatMap fun byte => if byte = 0x25 then [0x25, 0x25] else [byte]

def argument (fmt : Option Argument) : Bytes := (fmt.map Argument.text).getD []

/-- How a segment stands in a pattern. -/
def render : Segment → Bytes
  | .literal text => escape text
  | .directive kind none => [0x25, kind.letter]
  | .directive kind (some fmt) => [0x25, kind.letter, 0x7B] ++ fmt.text ++ [0x7D]

/-- The text in front of the first directive. -/
def leading : List Segment → Bytes
  | .literal text :: later => text ++ leading later
  | _ => []

/-- A text behind a directive without an argument does not look like more of its name. -/
def Separated : List Segment → Prop
  | [] => True
  | .literal _ :: later => Separated later
  | .directive _ fmt :: later =>
      (fmt = none → ∀ byte ∈ (leading later).head?,
        LogFormatter.isAlpha byte = false ∧ byte ≠ 0x7B ∧ byte ≠ 0x7D) ∧ Separated later

/-- An item for each text and each directive, behind the text so far. -/
def items (text : Bytes) : List Segment → List FormatItem
  | [] => if text = [] then [] else [.string text]
  | .literal more :: later => items (text ++ more) later
  | .directive kind fmt :: later =>
      (if text = [] then [] else [.string text]) ++ kind.item (argument fmt) :: items [] later

/-- What a segment prints of an event. -/
def output (strftime : Bytes → UInt64 → Bytes) (level : Level) (event : LogEvent) :
    Segment → Bytes
  | .literal text => text
  | .directive kind fmt => (kind.item (argument fmt)).format strftime level event

end Segment

/-- The pattern of the segments is what it was rendered from. -/
structure Parses (strftime : Bytes → UInt64 → Bytes) (segments : List Segment) : Prop where
  noError : (LogFormatter.mk (segments.flatMap Segment.render)).isError = false
  items : (LogFormatter.mk (segments.flatMap Segment.render)).m_items = Segment.items [] segments
  format : ∀ level event,
    (LogFormatter.mk (segments.flatMap Segment.render)).format strftime level event =
      segments.flatMap (Segment.output strftime level event)

/-! ## The parts of a pattern -/

namespace LogFormatter

section Parts

variable {str fmt nstr bytes later rest text : Bytes}

theorem length_readFormat (found : readFormat fmt bytes = some (text, rest)) :
    rest.length ≤ bytes.length := by
  induction bytes generalizing fmt with
  | nil => cases found
  | cons byte later ih =>
      rw [readFormat] at found
      split at found
      · cases found
        simp
      · have shorter := ih found
        simp only [List.length_cons]
        omega

theorem length_readItem (found : readItem str bytes = some (text, fmt, rest)) :
    rest.length ≤ bytes.length := by
  induction bytes generalizing str with
  | nil =>
      cases found
      simp
  | cons byte later ih =>
      rw [readItem] at found
      split at found
      · cases found
        simp
      · split at found
        · obtain ⟨pair, read, same⟩ := Option.map_eq_some_iff.mp found
          cases same
          have shorter := length_readFormat read
          simp only [List.length_cons]
          omega
        · have shorter := ih found
          simp only [List.length_cons]
          omega

/-- The loop ends with the pattern. -/
theorem parts_eq_of_le {fuel more : Nat} (enough : bytes.length ≤ fuel)
    (also : bytes.length ≤ more) : parts fuel nstr bytes = parts more nstr bytes := by
  induction fuel generalizing nstr bytes more with
  | zero =>
      rw [List.length_eq_zero_iff.mp (Nat.le_zero.mp enough)]
      cases more <;> rfl
  | succ fuel ih =>
      cases bytes with
      | nil => cases more <;> rfl
      | cons byte later =>
          cases more with
          | zero => cases also
          | succ more =>
              simp only [List.length_cons, Nat.add_le_add_iff_right] at enough also
              rw [parts, parts, ih enough also, ih enough also]
              cases read : readItem [] later with
              | none => rw [ih enough also]
              | some found =>
                  have shorter := length_readItem read
                  simp only [ih (shorter.trans enough) (shorter.trans also)]

/-- The parts of the rest of a pattern behind the text so far. -/
def partsOf (nstr bytes : Bytes) : List Part := parts bytes.length nstr bytes

@[simp] theorem partsOf_nil : partsOf nstr [] = flush nstr := rfl

/-- A byte of a text. -/
theorem partsOf_of_ne {byte : UInt8} (other : byte ≠ 0x25) :
    partsOf nstr (byte :: later) = partsOf (nstr ++ [byte]) later := by
  rw [partsOf, List.length_cons, parts, if_pos other, partsOf]

/-- The first of two percent signs is of the text, the second is read again. -/
theorem partsOf_doubled (next : later.head? = some 0x25) :
    partsOf nstr (0x25 :: later) = partsOf (nstr ++ [0x25]) later := by
  rw [partsOf, List.length_cons, parts, if_neg (not_not_intro rfl), if_pos next, partsOf]

theorem partsOf_unclosed (next : later.head? ≠ some 0x25) (read : readItem [] later = none) :
    partsOf nstr (0x25 :: later) = .unclosed :: partsOf nstr later := by
  rw [partsOf, List.length_cons, parts, if_neg (not_not_intro rfl), if_neg next, read, partsOf]

theorem partsOf_item (next : later.head? ≠ some 0x25)
    (read : readItem [] later = some (str, fmt, rest)) :
    partsOf nstr (0x25 :: later) = flush nstr ++ .item str fmt :: partsOf [] rest := by
  have shorter := length_readItem read
  rw [partsOf, List.length_cons, parts, if_neg (not_not_intro rfl), if_neg next, read, partsOf]
  simp only [parts_eq_of_le shorter (Nat.le_refl rest.length)]

/-- A text without percent signs. -/
theorem partsOf_append (plain : 0x25 ∉ text) :
    partsOf nstr (text ++ rest) = partsOf (nstr ++ text) rest := by
  induction text generalizing nstr with
  | nil => rw [List.append_nil, List.nil_append]
  | cons byte later ih =>
      rw [List.mem_cons, not_or] at plain
      rw [List.cons_append, partsOf_of_ne (Ne.symm plain.1), ih plain.2, List.append_assoc]
      rfl

/-- What stands behind a format is not read. -/
theorem readFormat_append (closed : 0x7D ∉ text) :
    readFormat fmt (text ++ 0x7D :: rest) = some (fmt ++ text, rest) := by
  induction text generalizing fmt with
  | nil => rw [List.nil_append, readFormat, if_pos rfl, List.append_nil]
  | cons byte later ih =>
      rw [List.mem_cons, not_or] at closed
      rw [List.cons_append, readFormat, if_neg (Ne.symm closed.1), ih closed.2, List.append_assoc]
      rfl

/-- A percent sign behind a text ends it or leads to an error. -/
theorem partsOf_ends (next : later.head? ≠ some 0x25) (some_text : nstr ≠ []) :
    (partsOf nstr (0x25 :: later)).any Part.isError = true ∨
      ∃ more, partsOf nstr (0x25 :: later) = .text nstr :: more := by
  cases read : readItem [] later with
  | none =>
      left
      rw [partsOf_unclosed next read]
      rfl
  | some found =>
      right
      rw [partsOf_item next read, flush, if_neg some_text]
      exact ⟨_, rfl⟩

end Parts

end LogFormatter

/-! ## The parts of what was rendered -/

namespace Segment

open LogFormatter

variable {kind : Directive} {fmt : Option Argument} {later segments : List Segment}
  {nstr rest text : Bytes}

theorem map_flush (nstr : Bytes) :
    (flush nstr).map Part.formatItem = if nstr = [] then [] else [.string nstr] := by
  rw [flush]
  split <;> rfl

theorem any_flush (nstr : Bytes) : (flush nstr).any Part.isError = false := by
  rw [flush]
  split <;> rfl

theorem isAlpha_letter (kind : Directive) : isAlpha kind.letter = true := by
  cases kind <;> decide

theorem letter_ne (kind : Directive) : kind.letter ≠ 0x25 := by
  cases kind <;> decide

theorem letter_mem (kind : Directive) : [kind.letter] ∈ s_format_items := by
  cases kind <;> decide

theorem formatItem_item (kind : Directive) (fmt : Bytes) :
    (Part.item [kind.letter] fmt).formatItem = kind.item fmt := by
  cases kind <;> rfl

/-- A letter is of the name. -/
theorem readItem_letter (kind : Directive) :
    readItem [] (kind.letter :: rest) = readItem [kind.letter] rest := by
  have noBrace : kind.letter ≠ 0x7B := by cases kind <;> decide
  rw [readItem, isAlpha_letter, if_neg (by simp), if_neg noBrace]
  rfl

/-- A directive is read as it was rendered. -/
theorem partsOf_directive
    (separated : fmt = none → ∀ byte ∈ rest.head?,
      isAlpha byte = false ∧ byte ≠ 0x7B ∧ byte ≠ 0x7D) :
    partsOf nstr ((Segment.directive kind fmt).render ++ rest) =
      flush nstr ++ .item [kind.letter] (argument fmt) :: partsOf [] rest := by
  have noPercent := letter_ne kind
  cases fmt with
  | none =>
      apply partsOf_item
      · simpa using noPercent
      · show readItem [] (kind.letter :: rest) = _
        rw [readItem_letter]
        cases rest with
        | nil => rfl
        | cons byte more =>
            obtain ⟨noLetter, noOpening, noClosing⟩ := separated rfl byte rfl
            rw [readItem, if_pos (by simp [noLetter, noOpening, noClosing])]
            rfl
  | some fmt =>
      rw [render, List.append_assoc, List.append_assoc]
      apply partsOf_item
      · simpa using noPercent
      · show readItem [] (kind.letter :: 0x7B :: (fmt.text ++ 0x7D :: rest)) = _
        rw [readItem_letter, readItem, if_neg (by simp), if_pos rfl, readFormat_append fmt.closed]
        rfl

/-- What comes behind a directive in a pattern does not look like more of its name. -/
theorem separated_render
    (separated : ∀ byte ∈ (leading later).head?,
      isAlpha byte = false ∧ byte ≠ 0x7B ∧ byte ≠ 0x7D) :
    ∀ byte ∈ (later.flatMap render).head?, isAlpha byte = false ∧ byte ≠ 0x7B ∧ byte ≠ 0x7D := by
  induction later with
  | nil => simp
  | cons segment later ih =>
      cases segment with
      | literal text =>
          cases text with
          | nil => exact ih separated
          | cons first more =>
              have stops := separated first rfl
              by_cases percent : first = 0x25
              · subst percent
                simpa [render, escape] using stops
              · simpa [render, escape, percent] using stops
      | directive kind fmt =>
          intro byte isHead
          have isPercent : byte = 0x25 := by
            cases fmt <;> simpa [render, eq_comm] using isHead
          rw [isPercent]
          decide

theorem escape_of_plain (plain : 0x25 ∉ text) : escape text = text := by
  induction text with
  | nil => rfl
  | cons byte later ih =>
      rw [List.mem_cons, not_or] at plain
      rw [escape, List.flatMap_cons, if_neg (Ne.symm plain.1)]
      show byte :: escape later = byte :: later
      rw [ih plain.2]

/-- Without percent signs in its texts a pattern is read as it was rendered. -/
theorem map_partsOf (nstr : Bytes) (separated : Separated segments)
    (plain : ∀ text, .literal text ∈ segments → 0x25 ∉ text) :
    (partsOf nstr (segments.flatMap render)).map Part.formatItem = items nstr segments ∧
      (partsOf nstr (segments.flatMap render)).any Part.isError = false := by
  induction segments generalizing nstr with
  | nil =>
      rw [List.flatMap_nil, partsOf_nil, map_flush, any_flush, items]
      exact ⟨rfl, rfl⟩
  | cons segment later ih =>
      have plainLater : ∀ text, .literal text ∈ later → 0x25 ∉ text := fun text member =>
        plain text (List.mem_cons_of_mem _ member)
      rw [List.flatMap_cons]
      cases segment with
      | literal text =>
          have here : 0x25 ∉ text := plain text List.mem_cons_self
          rw [render, escape_of_plain here, partsOf_append here, items]
          exact ih _ separated plainLater
      | directive kind fmt =>
          obtain ⟨parsed, noError⟩ := ih [] separated.2 plainLater
          rw [partsOf_directive fun noArgument => separated_render (separated.1 noArgument), items]
          constructor
          · rw [List.map_append, List.map_cons, parsed, formatItem_item, map_flush]
          · have known := List.contains_iff_mem.mpr (letter_mem kind)
            rw [List.any_append, List.any_cons, noError, any_flush, Part.isError, known]
            rfl

/-- The segments from the first directive on. -/
def behind : List Segment → List Segment
  | .literal _ :: later => behind later
  | segments => segments

theorem flatMap_render_eq (segments : List Segment) :
    segments.flatMap render = escape (leading segments) ++ (behind segments).flatMap render := by
  induction segments with
  | nil => rfl
  | cons segment later ih =>
      cases segment with
      | literal text =>
          rw [List.flatMap_cons, ih, render, leading, behind, escape, escape, escape,
            List.flatMap_append, List.append_assoc]
      | directive kind fmt => rfl

@[simp] theorem leading_nil : leading [] = [] := rfl

@[simp] theorem leading_directive : leading (.directive kind fmt :: later) = [] := rfl

/-- The first item prints the text in front of the first directive. -/
theorem head?_items (nonempty : nstr ++ leading segments ≠ []) :
    (items nstr segments).head? = some (.string (nstr ++ leading segments)) := by
  induction segments generalizing nstr with
  | nil =>
      rw [leading_nil, List.append_nil] at nonempty ⊢
      rw [items, if_neg nonempty]
      rfl
  | cons segment later ih =>
      cases segment with
      | literal text =>
          rw [leading, ← List.append_assoc] at nonempty ⊢
          rw [items, ih nonempty]
      | directive kind fmt =>
          rw [leading_directive, List.append_nil] at nonempty ⊢
          rw [items, if_neg nonempty]
          rfl

theorem render_directive (kind : Directive) (fmt : Option Argument) :
    ∃ more, (Segment.directive kind fmt).render = 0x25 :: kind.letter :: more := by
  cases fmt <;> exact ⟨_, rfl⟩

/-- What is behind a text is over or a directive. -/
theorem behind_cases (segments : List Segment) :
    behind segments = [] ∨
      ∃ kind fmt later, behind segments = .directive kind fmt :: later := by
  induction segments with
  | nil => exact .inl rfl
  | cons segment later ih =>
      cases segment with
      | literal text => exact ih
      | directive kind fmt => exact .inr ⟨kind, fmt, later, rfl⟩

/-- The second of two percent signs is taken for a directive, unless another one follows it: the
text up to the next directive is another one.  The text so far is ahead of `before` by the signs
that were read twice. -/
theorem partsOf_escape (text : Bytes) (segments : List Segment) (before : Bytes) (extra : Nat)
    (nonempty : before ++ List.replicate extra 0x25 ≠ []) :
    (partsOf (before ++ List.replicate extra 0x25)
        (0x25 :: (escape text ++ (behind segments).flatMap render))).any Part.isError = true ∨
      ∃ other more, other ≠ before ++ text ∧
        partsOf (before ++ List.replicate extra 0x25)
          (0x25 :: (escape text ++ (behind segments).flatMap render)) = .text other :: more := by
  induction text generalizing before extra with
  | nil =>
      rcases behind_cases segments with isEnd | ⟨kind, fmt, later, next⟩
      · left
        rw [isEnd]
        show (partsOf _ [0x25]).any Part.isError = true
        rw [partsOf_item (by simp) rfl, List.any_append, List.any_cons]
        have unknown : (Part.item [] []).isError = true := by decide
        rw [unknown, Bool.true_or, Bool.or_true]
      · obtain ⟨more, rendered⟩ := render_directive kind fmt
        rw [next, List.flatMap_cons, rendered]
        show (partsOf _ (0x25 :: 0x25 :: kind.letter :: (more ++ _))).any _ = true ∨
          ∃ _ _, _ ∧ partsOf _ (0x25 :: 0x25 :: kind.letter :: (more ++ _)) = _
        rw [partsOf_doubled rfl]
        apply (partsOf_ends (by simpa using letter_ne kind) (by simp)).imp_right
        rintro ⟨rest, same⟩
        refine ⟨_, rest, ?_, same⟩
        intro shorter
        have lengths := congrArg List.length shorter
        simp at lengths
  | cons byte later ih =>
      by_cases percent : byte = 0x25
      · subst percent
        have further := ih (before ++ [0x25]) (extra + 1) (by simp)
        have ahead : before ++ List.replicate extra 0x25 ++ [0x25] ++ [0x25] =
            before ++ [0x25] ++ List.replicate (extra + 1) 0x25 := by
          have more : [(0x25 : UInt8)] ++ List.replicate (extra + 1) 0x25 =
              List.replicate (extra + 2) 0x25 := rfl
          rw [List.append_assoc before [0x25], more, List.replicate_succ', List.replicate_succ',
            ← List.append_assoc, ← List.append_assoc]
        show (partsOf _ (0x25 :: 0x25 :: 0x25 :: (escape later ++ _))).any _ = true ∨
          ∃ _ _, _ ∧ partsOf _ (0x25 :: 0x25 :: 0x25 :: (escape later ++ _)) = _
        rw [partsOf_doubled rfl, partsOf_doubled rfl, ahead]
        have target : before ++ [0x25] ++ later = before ++ 0x25 :: later := by simp
        rwa [target] at further
      · have plain : escape (byte :: later) = byte :: escape later := by
          rw [escape, List.flatMap_cons, if_neg percent]
          rfl
        rw [plain]
        apply (partsOf_ends (by simpa using percent) nonempty).imp_right
        rintro ⟨rest, same⟩
        refine ⟨_, rest, ?_, same⟩
        intro equal
        rw [List.append_right_inj] at equal
        have member : byte ∈ List.replicate extra 0x25 := by
          rw [equal]
          exact List.mem_cons_self
        exact percent (List.eq_of_mem_replicate member)

/-- A percent sign in the text in front of the first directive is an error or leads to another
first item. -/
theorem map_partsOf_ne_of_leading (nstr : Bytes) (percent : 0x25 ∈ leading segments) :
    (partsOf nstr (segments.flatMap render)).any Part.isError = true ∨
      (partsOf nstr (segments.flatMap render)).map Part.formatItem ≠ items nstr segments := by
  obtain ⟨first, more, split, plain⟩ := List.eq_append_cons_of_mem percent
  have escaped : escape (leading segments) = first ++ 0x25 :: 0x25 :: escape more := by
    rw [split, escape, List.flatMap_append, List.flatMap_cons]
    show escape first ++ ([0x25, 0x25] ++ escape more) = _
    rw [escape_of_plain plain]
    rfl
  rw [flatMap_render_eq, escaped, List.append_assoc, partsOf_append plain]
  show (partsOf _ (0x25 :: 0x25 :: (escape more ++ _))).any _ = true ∨
    (partsOf _ (0x25 :: 0x25 :: (escape more ++ _))).map _ ≠ _
  rw [partsOf_doubled rfl]
  have read := partsOf_escape more segments (nstr ++ first ++ [0x25]) 0 (by simp)
  rw [List.replicate_zero, List.append_nil] at read
  apply read.imp_right
  rintro ⟨other, rest, different, found⟩ same
  have heads := congrArg List.head? same
  have whole : nstr ++ leading segments = nstr ++ first ++ [0x25] ++ more := by
    rw [split]
    simp
  rw [found, head?_items (by simp [split]), whole] at heads
  apply different
  exact FormatItem.string.inj (Option.some_inj.mp heads)

/-- A percent sign in a text is an error or leads to other items. -/
theorem map_partsOf_ne (nstr : Bytes) (separated : Separated segments)
    (percent : ∃ text, .literal text ∈ segments ∧ 0x25 ∈ text) :
    (partsOf nstr (segments.flatMap render)).any Part.isError = true ∨
      (partsOf nstr (segments.flatMap render)).map Part.formatItem ≠ items nstr segments := by
  induction segments generalizing nstr with
  | nil =>
      obtain ⟨text, member, _⟩ := percent
      cases member
  | cons segment later ih =>
      obtain ⟨found, member, inside⟩ := percent
      cases segment with
      | literal text =>
          by_cases here : 0x25 ∈ text
          · apply map_partsOf_ne_of_leading
            exact List.mem_append_left _ here
          · have there : .literal found ∈ later := by
              apply List.mem_of_ne_of_mem _ member
              rintro same
              cases same
              exact here inside
            rw [List.flatMap_cons, render, escape_of_plain here, partsOf_append here, items]
            exact ih _ separated ⟨found, there, inside⟩
      | directive kind fmt =>
          have there : .literal found ∈ later := List.mem_of_ne_of_mem (by simp) member
          rw [List.flatMap_cons,
            partsOf_directive fun noArgument => separated_render (separated.1 noArgument), items]
          apply (ih [] separated.2 ⟨found, there, inside⟩).imp
          · intro isError
            rw [List.any_append, List.any_cons, isError, Bool.or_true, Bool.or_true]
          · intro different same
            apply different
            rw [List.map_append, List.map_cons, formatItem_item, map_flush] at same
            exact (List.cons.inj (List.append_cancel_left same)).2

/-- The items print what the segments print. -/
theorem flatMap_items (strftime : Bytes → UInt64 → Bytes) (level : Level) (event : LogEvent)
    (nstr : Bytes) (segments : List Segment) :
    (items nstr segments).flatMap (FormatItem.format strftime level event) =
      nstr ++ segments.flatMap (output strftime level event) := by
  have text (nstr : Bytes) : (if nstr = [] then [] else [FormatItem.string nstr]).flatMap
      (FormatItem.format strftime level event) = nstr := by
    split
    next empty => rw [empty]; rfl
    next => exact List.append_nil nstr
  induction segments generalizing nstr with
  | nil => rw [items, text, List.flatMap_nil, List.append_nil]
  | cons segment later ih =>
      cases segment with
      | literal more => rw [items, ih, List.flatMap_cons, output, List.append_assoc]
      | directive kind fmt =>
          rw [items, List.flatMap_append, List.flatMap_cons, text, ih, List.flatMap_cons, output]
          rfl

end Segment

open Segment in
/-- A pattern is parsed into what it was rendered from where no text has a percent sign. -/
theorem parses_iff (strftime : Bytes → UInt64 → Bytes) (segments : List Segment)
    (separated : Separated segments) :
    Parses strftime segments ↔ ∀ text, .literal text ∈ segments → 0x25 ∉ text := by
  constructor
  · rintro parses text member percent
    rcases map_partsOf_ne [] separated ⟨text, member, percent⟩ with isError | different
    · exact Bool.false_ne_true (parses.noError.symm.trans isError)
    · exact different parses.items
  · intro plain
    obtain ⟨parsed, noError⟩ := map_partsOf [] separated plain
    constructor
    · exact noError
    · exact parsed
    · intro level event
      rw [LogFormatter.format, LogFormatter.m_items]
      show ((LogFormatter.partsOf [] _).map _).flatMap _ = _
      rw [parsed, flatMap_items, List.nil_append]

/-- The time, the level and the message. -/
def dated : List Segment :=
  [.directive .dateTime (some ⟨ascii "%H:%M", by decide⟩), .literal (ascii " ["),
    .directive .level none, .literal (ascii "] "), .directive .message none]

theorem parses_iff_dated :
    Parses (fun _ _ => ascii "12:00") dated ↔ ∀ text, .literal text ∈ dated → 0x25 ∉ text := by
  apply parses_iff
  constructor
  · intro noArgument
    cases noArgument
  · constructor
    · intro _
      decide
    · constructor
      · intro _
        decide
      · trivial

/-- The second percent sign of a pair is taken for a directive without a name. -/
theorem parses_not :
    Segment.Separated [.literal (ascii "100%")] ∧
      (LogFormatter.mk (ascii "100%%")).isError = true ∧
      (LogFormatter.mk (ascii "100%%")).m_items =
        [.string (ascii "100%"), .string (ascii "<<error_format %>>")] ∧
      ¬Parses (fun _ _ => ascii "12:00") [.literal (ascii "100%")] := by
  have isError : (LogFormatter.mk (ascii "100%%")).isError = true := by decide +kernel
  refine ⟨trivial, isError, by decide +kernel, ?_⟩
  intro parses
  have pattern : [Segment.literal (ascii "100%")].flatMap Segment.render = ascii "100%%" := by
    decide +kernel
  have noError := parses.noError
  rw [pattern, isError] at noError
  cases noError

end Exhy.Log
