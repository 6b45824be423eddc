import Exhy.Uri.Run

/-!
# The parts of a reference

Which bytes a part leaves out, on which bytes it is left for the next part, and how a byte
splits a text between two parts.
-/

namespace Exhy.Uri

open Library Machine Grammar

/-! ## Bytes -/

/-- Bytes that are in no text of a part. -/
def excluded : Kind → Bytes
  | .scheme | .port _ => ascii ":/?#@"
  | .colon | .portColon _ | .userinfo _ | .host _ => ascii "/?#@"
  | .slashes _ => ascii ":?#@"
  | .at _ => ascii ":/?#"
  | .segments _ | .path _ => ascii "?#"
  | .mark _ => ascii ":/#@"
  | .query _ | .fragment _ => ascii "#"
  | .hash _ => ascii ":/?@"

/-- The bytes that may end a part of any length; any byte may come behind the others. -/
def ends (code : UInt8) : Kind → Bool
  | .scheme => code = 0x3A
  | .userinfo _ => code = 0x40
  | .host _ => code ∈ ascii ":/?#"
  | .port _ => code ∈ ascii "/?#"
  | .segments _ | .path _ => code ∈ ascii "?#"
  | .query _ => code = 0x23
  | .fragment _ => false
  | .colon | .slashes _ | .at _ | .portColon _ | .mark _ | .hash _ => true

/-- The text of a part that has just one. -/
def word : Kind → Option Bytes
  | .colon | .portColon _ => some (ascii ":")
  | .slashes _ => some (ascii "//")
  | .at _ => some (ascii "@")
  | .mark _ => some (ascii "?")
  | .hash _ => some (ascii "#")
  | _ => none

section Bytes

variable {kind : Kind} {text : Bytes} {code : UInt8}

theorem takes_eq (kind : Kind) (code : UInt8) :
    outline.takes code kind = (outline.part kind).firsts.any (inRanges · code) := by
  rw [Outline.takes, isEmpty_derive, Bool.not_not]

theorem taken_eq (code : UInt8) (ways : List (Kind × List Nat)) :
    outline.taken code ways =
      ways.filter fun way => (outline.part way.1).firsts.any (inRanges · code) := by
  rw [Outline.taken]
  simp only [takes_eq]

theorem classes_excluded (kind : Kind) : ∀ code ∈ excluded kind,
    ∀ ranges ∈ (outline.part kind).classes, inRanges ranges code = false := by
  cases kind with
  | scheme | colon => decide +kernel
  | _ side => cases side <;> decide +kernel

theorem not_mem_of_excluded (isExcluded : code ∈ excluded kind)
    (member : text ∈ (outline.part kind).language) : code ∉ text :=
  not_mem_of_classes (classes_excluded kind code isExcluded) member

theorem ne_of_excluded {stop : UInt8} (isExcluded : stop ∈ excluded kind)
    (member : code :: text ∈ (outline.part kind).language) : code ≠ stop := by
  rintro rfl
  exact not_mem_of_excluded isExcluded member List.mem_cons_self

/-- Nothing is left of a part behind a byte with which no text of it goes on. -/
theorem dead_of_not_mem (ends : ∀ more, text ++ code :: more ∉ (outline.part kind).language) :
    outline.residual (kind, text ++ [code]) = [] := by
  apply not_not.mp
  rw [← ne_eq, Outline.residual_ne_nil_iff]
  rintro ⟨more, longer⟩
  rw [List.append_assoc] at longer
  exact ends more longer

theorem dead_of_excluded (isExcluded : code ∈ excluded kind) :
    outline.residual (kind, text ++ [code]) = [] := by
  apply dead_of_not_mem
  intro more member
  exact not_mem_of_excluded isExcluded member (by simp)

theorem mem_language_word (isWord : word kind = some text) {other : Bytes} :
    other ∈ (outline.part kind).language ↔ other = text := by
  cases kind with
  | colon | slashes | «at» | portColon | mark | hash =>
      cases isWord
      exact mem_language_literal
  | _ => cases isWord

theorem dead_of_word (isWord : word kind = some text) (code : UInt8) :
    outline.residual (kind, text ++ [code]) = [] := by
  apply dead_of_not_mem
  intro more member
  have longer := (mem_language_word isWord).mp member
  simp at longer

theorem stops_of_word (isWord : word kind = some text) : outline.stops (kind, text) = true :=
  Outline.stops_eq.mpr ((mem_language_word isWord).mpr rfl)

theorem colon_or_stop : ∀ code ∈ ascii ":/?#", code = 0x3A ∨ code ∈ ascii "/?#" := by
  decide

/-- A part is left on those bytes only. -/
theorem taken_of_not_ends (kind : Kind) (code : UInt8) (inside : ends code kind = false) :
    outline.taken code (outline.follow kind) = [] := by
  rw [taken_eq]
  revert code
  cases kind with
  | scheme => exact forall_byte (by decide +kernel)
  | userinfo side | host side | port side | segments side | path side | query side
  | fragment side => cases side <;> exact forall_byte (by decide +kernel)
  | _ => exact nofun

example : outline.taken 0x2F (outline.follow (.fragment .hier)) = [] := by
  decide +kernel

theorem alive_of_mem (member : text ∈ (outline.part kind).language) :
    outline.residual (kind, text) ≠ [] := by
  rw [← List.append_nil text] at member
  exact Outline.residual_ne_nil member

theorem takes_of_mem (member : code :: text ∈ (outline.part kind).language) :
    outline.takes code kind = true :=
  Outline.takes_iff.mpr (Outline.residual_ne_nil member)

end Bytes

/-! ## Ways -/

section Ways

variable {side : Side} {kind : Kind} {code : UInt8}

/-- The query that comes behind a part. -/
def markOf : Kind → Option Side
  | .colon => some .hier
  | .slashes side | .at side | .host side | .portColon side | .port side | .segments side
  | .path side => some side
  | _ => none

/-- The fragment that comes behind a part. -/
def hashOf : Kind → Option Side
  | .mark side | .query side => some side
  | kind => markOf kind

theorem taken_mark (isSide : markOf kind = some side) : 0x3F ∈ excluded kind ∧
    outline.taken 0x3F (outline.follow kind) = [(.mark side, (outline.last kind).getD [])] := by
  cases kind with
  | scheme | userinfo | mark | query | hash | fragment => cases isSide
  | colon =>
      cases isSide
      decide +kernel
  | _ =>
      cases isSide
      cases side <;> decide +kernel

theorem taken_hash (isSide : hashOf kind = some side) : 0x23 ∈ excluded kind ∧
    outline.taken 0x23 (outline.follow kind) = [(.hash side, (outline.last kind).getD [])] := by
  cases kind with
  | scheme | userinfo | hash | fragment => cases isSide
  | colon =>
      cases isSide
      decide +kernel
  | _ =>
      cases isSide
      cases side <;> decide +kernel

theorem hashOf_of_markOf (isSide : markOf kind = some side) : hashOf kind = some side := by
  cases kind with
  | mark | query => cases isSide
  | _ => exact isSide

theorem last_of_hashOf (isSide : hashOf kind = some side) : (outline.last kind).isSome = true := by
  cases kind with
  | scheme | userinfo | hash | fragment => cases isSide
  | _ => rfl

/-- What comes behind the marks of a query and of a fragment. -/
structure TailWays (side : Side) : Prop where
  taken_query : ∀ code, outline.takes code (.query side) = true →
    outline.taken code (outline.follow (.mark side)) = [(.query side, [Outline.queryBase side])]
  taken_fragment : ∀ code, outline.takes code (.fragment side) = true →
    outline.taken code (outline.follow (.hash side)) =
      [(.fragment side, [Outline.queryBase side + 2])]

theorem tailWays (side : Side) : TailWays side where
  taken_query := by
    simp only [takes_eq, taken_eq]
    cases side <;> exact forall_byte (by decide +kernel)
  taken_fragment := by
    simp only [takes_eq, taken_eq]
    cases side <;> exact forall_byte (by decide +kernel)

/-- The path that comes behind a part of an authority, and what is performed before it. -/
def pathOf : Kind → Option (Side × List Nat)
  | .slashes side => some (side, [Outline.authorityBase side, Outline.authorityBase side + 2,
      Outline.authorityBase side + 3])
  | .at side => some (side, [Outline.authorityBase side + 2, Outline.authorityBase side + 3])
  | .host side => some (side, [Outline.authorityBase side + 3])
  | .portColon side => some (side, [Outline.authorityBase side + 4, Outline.authorityBase side + 5])
  | .port side => some (side, [Outline.authorityBase side + 5])
  | _ => none

theorem taken_slash {numbers : List Nat} (isPath : pathOf kind = some (side, numbers)) :
    outline.taken 0x2F (outline.follow kind) =
        [(.segments side, numbers ++ Outline.entersPath side)] ∧
      (outline.last kind).getD [] =
        numbers ++ Outline.entersPath side ++ Outline.leavesPath side ∧
      inOrder outline.action (numbers ++ Outline.entersPath side ++ Outline.leavesPath side) =
        inOrder outline.action (numbers ++ Outline.entersPath side) ++
          inOrder outline.action (Outline.leavesPath side) := by
  cases kind with
  | slashes | «at» | host | portColon | port =>
      cases isPath
      cases side <;> decide +kernel
  | _ => cases isPath

theorem markOf_of_pathOf {numbers : List Nat} (isPath : pathOf kind = some (side, numbers)) :
    markOf kind = some side := by
  cases kind with
  | slashes | «at» | host | portColon | port =>
      cases isPath
      rfl
  | _ => cases isPath

theorem dead_of_pathOf {numbers : List Nat} {text : Bytes} (isPath : pathOf kind = some (side, numbers))
    (stops : outline.stops (kind, text) = true) : outline.residual (kind, text ++ [0x2F]) = [] := by
  cases kind with
  | slashes =>
      rw [mem_language_literal.mp (Outline.stops_eq.mp stops)]
      exact dead_of_word rfl 0x2F
  | «at» => exact dead_of_excluded (by decide : 0x2F ∈ ascii ":/?#")
  | host | portColon => exact dead_of_excluded (by decide : 0x2F ∈ ascii "/?#@")
  | port => exact dead_of_excluded (by decide : 0x2F ∈ ascii ":/?#@")
  | _ => cases isPath

theorem takes_port (side : Side) (code : UInt8) :
    outline.takes code (.port side) = inRanges Grammar.digit code :=
  (takes_eq (.port side) code).trans (Bool.or_false _)

/-- What comes behind the parts of an authority. -/
structure AuthorityWays (side : Side) : Prop where
  taken_port : ∀ code, outline.takes code (.port side) = true →
    outline.taken code (outline.follow (.portColon side)) =
      [(.port side, [Outline.authorityBase side + 4])]
  taken_portColon_other : ∀ code, code ∉ ascii "/?#" →
    outline.takes code (.port side) = false →
      outline.taken code (outline.follow (.portColon side)) = []
  takes_host : ∀ code, outline.takes code (.userinfo side) = true → code ≠ 0x3A →
    outline.takes code (.host side) = true
  taken_at_host : ∀ code, outline.takes code (.host side) = true →
    outline.taken code (outline.follow (.at side)) =
      [(.host side, [Outline.authorityBase side + 2])]
  /-- Behind the slashes a host may as well be a userinfo. -/
  taken_slashes_host : ∀ code, outline.takes code (.host side) = true →
    outline.taken code (outline.follow (.slashes side)) =
      (if outline.takes code (.userinfo side) then [(.userinfo side, [Outline.authorityBase side])]
        else []) ++
        [(.host side, [Outline.authorityBase side, Outline.authorityBase side + 2])]
  /-- The colon in front of a port, and what is performed there. -/
  taken_colon :
    outline.taken 0x3A (outline.follow (.host side)) =
        [(.portColon side, [Outline.authorityBase side + 3])] ∧
      outline.taken 0x3A (outline.follow (.at side)) =
        [(.portColon side, [Outline.authorityBase side + 2, Outline.authorityBase side + 3])] ∧
      outline.taken 0x3A (outline.follow (.slashes side)) =
        [(.userinfo side, [Outline.authorityBase side]),
          (.portColon side, [Outline.authorityBase side, Outline.authorityBase side + 2,
            Outline.authorityBase side + 3])]
  /-- The at sign behind a userinfo. -/
  taken_at :
    outline.taken 0x40 (outline.follow (.slashes side)) =
        [(.at side, [Outline.authorityBase side, Outline.authorityBase side + 1])] ∧
      outline.taken 0x40 (outline.follow (.userinfo side)) =
        [(.at side, [Outline.authorityBase side + 1])] ∧
      outline.taken 0x40 (outline.follow (.portColon side)) = []

theorem authorityWays (side : Side) : AuthorityWays side where
  taken_port := by
    simp only [takes_eq, taken_eq]
    cases side <;> exact forall_byte (by decide +kernel)
  taken_portColon_other := by
    simp only [takes_eq, taken_eq]
    cases side <;> exact forall_byte (by decide +kernel)
  takes_host := by
    simp only [takes_eq]
    cases side <;> exact forall_byte (by decide +kernel)
  taken_at_host := by
    simp only [takes_eq, taken_eq]
    cases side <;> exact forall_byte (by decide +kernel)
  taken_slashes_host := by
    simp only [takes_eq, taken_eq]
    cases side <;> exact forall_byte (by decide +kernel)
  taken_colon := by cases side <;> decide +kernel
  taken_at := by cases side <;> decide +kernel

example : outline.taken 0x5B (outline.follow (.slashes .hier)) =
    [(.host .hier, [Outline.authorityBase .hier, Outline.authorityBase .hier + 2])] := by
  decide +kernel

end Ways

/-! ## Authorities -/

section Authorities

variable {text left right : Bytes} {code : UInt8}

/-- A colon splits a userinfo. -/
theorem mem_userinfo_split (member : left ++ 0x3A :: right ∈ userinfo.language) :
    left ∈ userinfo.language ∧ right ∈ userinfo.language := by
  apply mem_language_star_split _ member
  intro piece isPiece isColon
  rcases mem_language_alt.mp isPiece with ⟨byte, -, rfl⟩ | inEscape
  · rw [List.mem_singleton.mp isColon]
  · exact absurd isColon (not_mem_of_classes (by decide +kernel) inEscape)

/-- A userinfo without a colon is a registered name. -/
theorem mem_host_of_userinfo (member : text ∈ userinfo.language) (absent : 0x3A ∉ text) :
    text ∈ host.language := by
  apply fun isName => mem_language_alt.mpr (.inr (mem_language_alt.mpr (.inr isName)))
  apply mem_language_star_of_not_mem _ member absent
  intro piece isPiece noColon
  rcases mem_language_alt.mp isPiece with ⟨byte, inside, rfl⟩ | inEscape
  · have plain : ∀ byte, inRanges (unreserved ++ sub_delims ++ chars ":") byte = true →
        byte ≠ 0x3A → inRanges (unreserved ++ sub_delims) byte = true :=
      forall_byte (by decide +kernel)
    refine mem_language_alt.mpr (.inl ⟨byte, plain byte inside ?_, rfl⟩)
    rintro rfl
    exact noColon List.mem_cons_self
  · exact mem_language_alt.mpr (.inr inEscape)

/-- A host with a colon or a bracket stands in brackets. -/
theorem bracketed_of_mem_host (member : text ∈ host.language) (isCode : code ∈ ascii ":[")
    (inText : code ∈ text) : ∃ inner, 0x5D ∉ inner ∧ text = 0x5B :: inner ++ [0x5D] := by
  have outside : ∀ code ∈ ascii ":[", ∀ part ∈ [(IPv4address : Machine Action), reg_name],
      ∀ ranges ∈ part.classes, inRanges ranges code = false := by
    decide +kernel
  rcases mem_language_alt.mp member with inBrackets | others
  · obtain ⟨_, _, rfl, isOpen, later⟩ := mem_language_seq.mp inBrackets
    obtain ⟨inner, _, rfl, isInner, isClose⟩ := mem_language_seq.mp later
    rw [mem_language_literal.mp isOpen, mem_language_literal.mp isClose]
    exact ⟨inner, not_mem_of_classes (by decide +kernel) isInner, rfl⟩
  · rcases mem_language_alt.mp others with inAddress | inName
    · exact absurd inText (not_mem_of_classes (outside code isCode IPv4address (by simp)) inAddress)
    · exact absurd inText (not_mem_of_classes (outside code isCode reg_name (by simp)) inName)

/-- No host goes on with a colon behind a host. -/
theorem not_mem_host_colon (member : text ∈ host.language) (more : Bytes) :
    text ++ 0x3A :: more ∉ host.language := by
  intro longer
  obtain ⟨inner, absent, same⟩ :=
    bracketed_of_mem_host longer (by decide : 0x3A ∈ ascii ":[") (by simp)
  cases text with
  | nil => cases same
  | cons byte rest =>
      obtain ⟨rfl, onward⟩ := List.cons.inj same
      obtain ⟨within, -, closed⟩ :=
        bracketed_of_mem_host member (by decide : 0x5B ∈ ascii ":[") List.mem_cons_self
      obtain ⟨-, isRest⟩ := List.cons.inj closed
      have both : within ++ 0x5D :: (0x3A :: more) = inner ++ [0x5D] := by
        rw [isRest] at onward
        exact (List.append_cons ..).trans onward
      have shorter := congrArg List.dropLast both
      rw [List.dropLast_concat, List.dropLast_append_of_ne_nil (List.cons_ne_nil _ _),
        List.dropLast_cons_of_ne_nil (List.cons_ne_nil _ _)] at shorter
      apply absent
      rw [← shorter]
      exact List.mem_append_right _ List.mem_cons_self

theorem dead_host_colon {side : Side} (member : text ∈ (outline.part (.host side)).language) :
    outline.residual (.host side, text ++ [0x3A]) = [] :=
  dead_of_not_mem (not_mem_host_colon member)

end Authorities

/-! ## Paths without an authority -/

section Paths

variable {text left right : Bytes} {code : UInt8}

theorem dead_path_slashes (side : Side) : outline.residual (.path side, ascii "//") = [] := by
  cases side <;> decide +kernel

theorem slash_of_mem_segments (member : code :: text ∈ segments.language) : code = 0x2F := by
  obtain ⟨_, _, -, isSegment, -⟩ := cons_mem_language_star.mp member
  obtain ⟨_, _, same, isSlash, -⟩ := mem_language_seq.mp isSegment
  rw [mem_language_literal.mp isSlash] at same
  cases same
  rfl

/-- The path behind an authority starts with a slash. -/
theorem slash_of_mem_part {side : Side} (member : code :: text ∈ (outline.part (.segments side)).language) :
    code = 0x2F := by
  have starts : ∀ code, outline.takes code (.segments side) = true → code = 0x2F := by
    cases side <;> exact forall_byte (by decide +kernel)
  exact starts code (takes_of_mem member)

/-- The first segment of a relative path has no colon. -/
theorem slash_before_colon (member : left ++ 0x3A :: right ∈ (Outline.barePath .relative).language) :
    0x2F ∈ left := by
  rcases mem_language_alt.mp member with absolute | others
  · obtain ⟨_, _, same, isSlash, -⟩ := mem_language_seq.mp absolute
    rw [mem_language_literal.mp isSlash] at same
    cases left with
    | nil => cases same
    | cons byte rest =>
        cases same
        exact List.mem_cons_self
  · rcases mem_language_alt.mp others with noscheme | nothing
    · obtain ⟨first, later, same, isFirst, areSegments⟩ := mem_language_seq.mp noscheme
      have noColon : 0x3A ∉ first := not_mem_of_classes (by decide +kernel) isFirst
      rcases List.append_eq_append_iff.mp same with ⟨onward, rfl, isRight⟩ | ⟨onward, rfl, isLater⟩
      · cases onward with
        | nil =>
            rw [List.nil_append] at isRight
            rw [← isRight] at areSegments
            cases slash_of_mem_segments areSegments
        | cons byte more =>
            cases isRight
            simp at noColon
      · cases onward with
        | nil =>
            rw [isLater, List.nil_append] at areSegments
            cases slash_of_mem_segments areSegments
        | cons byte more =>
            rw [isLater, List.cons_append] at areSegments
            rw [slash_of_mem_segments areSegments]
            simp
    · exact absurd (mem_language_empty.mp nothing) (by simp)

end Paths

end Exhy.Uri
