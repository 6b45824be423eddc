import Exhy.Library.CString

/-!
# The lines of a text

A reader takes lines that end with a carriage return and a line feed, up to the first empty one.
What it has after a text depends on the text only, byte by byte, so the parts of a text can be
read one after the other.
-/

namespace Library

/-- The end of a line. -/
def crlf : Bytes := [0x0D, 0x0A]

/-- The lines so far with the bytes of the next one, or the lines in front of the first empty one
with the bytes behind it. -/
inductive Scan where
  | reading (lines : List Bytes) (line : Bytes)
  | ended (lines : List Bytes) (behind : Bytes)
  deriving DecidableEq, Repr

namespace Scan

/-- One byte more. -/
def step : Scan → UInt8 → Scan
  | reading lines line, byte =>
      if byte = 0x0A ∧ line.getLast? = some 0x0D then
        if line.dropLast = [] then ended lines [] else reading (lines ++ [line.dropLast]) []
      else reading lines (line ++ [byte])
  | ended lines behind, byte => ended lines (behind ++ [byte])

/-- What a reader has after some bytes more. -/
def run (scan : Scan) (text : Bytes) : Scan := text.foldl step scan

variable {scan : Scan} {lines : List Bytes} {line text : Bytes}

theorem run_append (scan : Scan) (first second : Bytes) :
    scan.run (first ++ second) = (scan.run first).run second :=
  List.foldl_append ..

/-- Behind the empty line nothing is looked at. -/
theorem run_ended (lines : List Bytes) (behind text : Bytes) :
    (ended lines behind).run text = ended lines (behind ++ text) := by
  induction text generalizing behind with
  | nil => rw [List.append_nil]; rfl
  | cons byte rest ih =>
      have first : (ended lines behind).run (byte :: rest) = (ended lines (behind ++ [byte])).run rest := rfl
      rw [first, ih, List.append_assoc, List.singleton_append]

/-- Bytes without a line feed end no line. -/
theorem run_reading (lines : List Bytes) (line : Bytes) (inside : 0x0A ∉ text) :
    (reading lines line).run text = reading lines (line ++ text) := by
  induction text generalizing line with
  | nil => rw [List.append_nil]; rfl
  | cons byte rest ih =>
      rw [List.mem_cons, not_or] at inside
      have goesOn : step (reading lines line) byte = reading lines (line ++ [byte]) :=
        if_neg fun ends => inside.1 ends.1.symm
      have first : (reading lines line).run (byte :: rest) = (step (reading lines line) byte).run rest := rfl
      rw [first, goesOn, ih _ inside.2, List.append_assoc, List.singleton_append]

/-- The end of a line. -/
theorem run_crlf (lines : List Bytes) (line : Bytes) :
    (reading lines line).run crlf =
      if line = [] then ended lines [] else reading (lines ++ [line]) [] := by
  have back : step (reading lines line) 0x0D = reading lines (line ++ [0x0D]) := by
    rw [step, if_neg fun ends => absurd ends.1 (by decide)]
  have feed : step (reading lines (line ++ [0x0D])) 0x0A =
      if line = [] then ended lines [] else reading (lines ++ [line]) [] := by
    rw [step, if_pos ⟨rfl, List.getLast?_concat ..⟩, List.dropLast_concat]
  rw [← feed, ← back]
  rfl

/-- A line without a line feed in it. -/
theorem run_line (lines : List Bytes) (inside : 0x0A ∉ text) (some : text ≠ []) :
    (reading lines []).run (text ++ crlf) = reading (lines ++ [text]) [] := by
  rw [run_append, run_reading _ _ inside, List.nil_append, run_crlf, if_neg some]

/-- Such lines one after another. -/
theorem run_lines {Item : Type} {render : Item → Bytes} {items : List Item} (lines : List Bytes)
    (inside : ∀ item ∈ items, 0x0A ∉ render item ∧ render item ≠ []) :
    (reading lines []).run (items.flatMap fun item => render item ++ crlf) =
      reading (lines ++ items.map render) [] := by
  induction items generalizing lines with
  | nil => rw [List.map_nil, List.append_nil]; rfl
  | cons item rest ih =>
      obtain ⟨noFeed, some⟩ := inside item List.mem_cons_self
      rw [List.flatMap_cons, run_append, run_line _ noFeed some,
        ih _ fun other member => inside other (List.mem_cons_of_mem _ member), List.map_cons,
        List.append_assoc, List.singleton_append]

/-- Behind the end of a line a new one starts, or the lines have ended. -/
theorem run_concat_crlf (scan : Scan) (text : Bytes) :
    (∃ lines, scan.run (text ++ crlf) = reading lines []) ∨
      ∃ lines behind, scan.run (text ++ crlf) = ended lines behind := by
  rw [run_append]
  cases scan.run text with
  | reading lines line =>
      rw [run_crlf]
      split
      · exact .inr ⟨lines, [], rfl⟩
      · exact .inl ⟨_, rfl⟩
  | ended lines behind => exact .inr ⟨lines, behind ++ crlf, run_ended ..⟩

/-- The first line has bytes: it has been read, or it has begun with another byte than a carriage
return. -/
def Begun : Scan → Prop
  | reading lines line => lines ≠ [] ∨ ∃ byte rest, byte ≠ 0x0D ∧ line = byte :: rest
  | ended lines _ => lines ≠ []

theorem Begun.step (begun : scan.Begun) (byte : UInt8) : (scan.step byte).Begun := by
  cases scan with
  | ended lines behind => exact begun
  | reading lines line =>
      rw [Scan.step]
      split
      next ends =>
        split
        next empty =>
          rcases begun with some | ⟨first, rest, other, rfl⟩
          · exact some
          · -- the line is a carriage return alone
            cases rest with
            | nil => exact absurd (Option.some.inj ends.2) other
            | cons second more => cases empty
        next => exact .inl (List.append_ne_nil_of_right_ne_nil _ (List.cons_ne_nil _ _))
      next =>
        rcases begun with some | ⟨first, rest, other, rfl⟩
        · exact .inl some
        · exact .inr ⟨first, rest ++ [byte], other, rfl⟩

theorem Begun.run (begun : scan.Begun) (text : Bytes) : (scan.run text).Begun := by
  induction text generalizing scan with
  | nil => exact begun
  | cons byte rest ih => exact ih (begun.step byte)

end Scan

end Library
