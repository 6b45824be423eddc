import Exhy.Library.Language
import Exhy.Uri.Outline

/-!
# References

The components that the grammar gives to a text.  Each is in the language of its rule, and
their text is the text.
-/

namespace Exhy.Uri

open Library Machine Grammar

/-- The components of an authority. -/
structure Authority where
  userinfo : Option Bytes
  host : Bytes
  port : Option Bytes
  isUserinfo : ∀ text ∈ userinfo, text ∈ Grammar.userinfo.language
  isHost : host ∈ Grammar.host.language
  isPort : ∀ text ∈ port, text ∈ Grammar.port.language

/-- A component and the byte behind it, or nothing. -/
def before (component : Option Bytes) (stop : UInt8) : Bytes :=
  match component with
  | some text => text ++ [stop]
  | none => []

/-- A byte and the component behind it, or nothing. -/
def behind (start : UInt8) (component : Option Bytes) : Bytes :=
  match component with
  | some text => start :: text
  | none => []

def Authority.text (authority : Authority) : Bytes :=
  before authority.userinfo 0x40 ++ authority.host ++ behind 0x3A authority.port

/-- Whether a scheme comes first. -/
def sideOf (scheme : Option Bytes) : Side := if scheme.isSome then .hier else .relative

/-- The components of a reference; the path depends on what comes before it. -/
structure Reference where
  scheme : Option Bytes
  authority : Option Authority
  path : Bytes
  query : Option Bytes
  fragment : Option Bytes
  isScheme : ∀ text ∈ scheme, text ∈ Grammar.scheme.language
  isPath : path ∈ (if authority.isSome then path_abempty
    else Outline.barePath (sideOf scheme)).language
  isQuery : ∀ text ∈ query, text ∈ pchars.language
  isFragment : ∀ text ∈ fragment, text ∈ pchars.language

namespace Reference

def authorityText (authority : Option Authority) : Bytes :=
  match authority with
  | some authority => [0x2F, 0x2F] ++ authority.text
  | none => []

/-- What follows the scheme. -/
def rest (reference : Reference) : Bytes :=
  authorityText reference.authority ++ reference.path ++ behind 0x3F reference.query ++
    behind 0x23 reference.fragment

def text (reference : Reference) : Bytes := before reference.scheme 0x3A ++ reference.rest

end Reference

/-! ## The language of the grammar -/

section Language

variable {text : Bytes} {side : Side}

/-- A part that may be there behind a byte. -/
theorem mem_language_behind {start : String} {stop : UInt8} {part : Machine Action}
    (isStart : start.toList.map Char.toUInt8 = [stop]) :
    text ∈ (opt (seq (literal start) part)).language ↔
      ∃ component : Option Bytes, (∀ text ∈ component, text ∈ part.language) ∧
        text = behind stop component := by
  rw [mem_language_opt, mem_language_seq]
  simp only [mem_language_literal, isStart]
  constructor
  · rintro (⟨left, right, rfl, rfl, inPart⟩ | rfl)
    · exact ⟨some right, by simpa using inPart, rfl⟩
    · exact ⟨none, by rintro _ ⟨⟩, rfl⟩
  · rintro ⟨component, inPart, rfl⟩
    cases component with
    | none => exact .inr rfl
    | some right => exact .inl ⟨[stop], right, rfl, rfl, inPart right rfl⟩

/-- A part that may be there before a byte. -/
theorem mem_language_before {start : String} {stop : UInt8} {part : Machine Action}
    (isStart : start.toList.map Char.toUInt8 = [stop]) :
    text ∈ (opt (seq part (literal start))).language ↔
      ∃ component : Option Bytes, (∀ text ∈ component, text ∈ part.language) ∧
        text = before component stop := by
  rw [mem_language_opt, mem_language_seq]
  simp only [mem_language_literal, isStart]
  constructor
  · rintro (⟨left, right, rfl, inPart, rfl⟩ | rfl)
    · exact ⟨some left, by simpa using inPart, rfl⟩
    · exact ⟨none, by rintro _ ⟨⟩, rfl⟩
  · rintro ⟨component, inPart, rfl⟩
    cases component with
    | none => exact .inr rfl
    | some left => exact .inl ⟨left, [stop], rfl, inPart left rfl, rfl⟩

theorem mem_language_tail : text ∈ (Outline.tail side).language ↔
    ∃ query fragment : Option Bytes, (∀ text ∈ query, text ∈ pchars.language) ∧
      (∀ text ∈ fragment, text ∈ pchars.language) ∧
        text = behind 0x3F query ++ behind 0x23 fragment := by
  have query : ∀ text, text ∈ (opt (seq (literal "?") (Outline.queryMachine side))).language ↔ _ :=
    fun _ => mem_language_behind rfl
  have fragment : ∀ text,
      text ∈ (opt (seq (literal "#") (Outline.fragmentMachine side))).language ↔ _ :=
    fun _ => mem_language_behind rfl
  rw [Outline.tail, mem_language_seq]
  simp only [query, fragment]
  constructor
  · rintro ⟨_, _, rfl, ⟨query, isQuery, rfl⟩, ⟨fragment, isFragment, rfl⟩⟩
    exact ⟨query, fragment, isQuery, isFragment, rfl⟩
  · rintro ⟨query, fragment, isQuery, isFragment, rfl⟩
    exact ⟨_, _, rfl, ⟨query, isQuery, rfl⟩, ⟨fragment, isFragment, rfl⟩⟩

theorem mem_language_authority : text ∈ (Outline.authorityMachine side).language ↔
    ∃ authority : Authority, text = authority.text := by
  have userinfo : ∀ text,
      text ∈ (opt (seq (Outline.userinfoMachine side) (literal "@"))).language ↔ _ :=
    fun _ => mem_language_before rfl
  have port : ∀ text, text ∈ (opt (seq (literal ":") (Outline.portMachine side))).language ↔ _ :=
    fun _ => mem_language_behind rfl
  rw [Outline.authorityMachine, language, mem_language_seq]
  simp only [mem_language_seq, userinfo, port]
  constructor
  · rintro ⟨_, _, rfl, ⟨userinfo, isUserinfo, rfl⟩, host, _, rfl, isHost, ⟨port, isPort, rfl⟩⟩
    exact ⟨⟨userinfo, host, port, isUserinfo, isHost, isPort⟩, (List.append_assoc ..).symm⟩
  · rintro ⟨authority, rfl⟩
    exact ⟨_, _, List.append_assoc .., ⟨authority.userinfo, authority.isUserinfo, rfl⟩,
      authority.host, _, rfl, authority.isHost, ⟨authority.port, authority.isPort, rfl⟩⟩

theorem language_pathMachine : (Outline.pathMachine side).language = path_abempty.language := by
  cases side <;> rfl

theorem mem_language_reference : text ∈ (Outline.reference side).language ↔
    ∃ (authority : Option Authority) (path : Bytes) (query fragment : Option Bytes),
      path ∈ (if authority.isSome then path_abempty else Outline.barePath side).language ∧
      (∀ text ∈ query, text ∈ pchars.language) ∧ (∀ text ∈ fragment, text ∈ pchars.language) ∧
        text = Reference.authorityText authority ++ path ++ behind 0x3F query ++
          behind 0x23 fragment := by
  rw [Outline.reference, mem_language_seq]
  simp only [mem_language_tail, mem_language_alt, mem_language_seq, mem_language_literal,
    mem_language_authority, language_pathMachine]
  constructor
  · rintro ⟨_, _, rfl, ⟨_, _, rfl, rfl, _, path, rfl, ⟨authority, rfl⟩, isPath⟩ | isPath,
      query, fragment, isQuery, isFragment, rfl⟩
    · refine ⟨some authority, path, query, fragment, isPath, isQuery, isFragment, ?_⟩
      simp [Reference.authorityText]
      rfl
    · refine ⟨none, _, query, fragment, isPath, isQuery, isFragment, ?_⟩
      simp [Reference.authorityText]
  · rintro ⟨authority, path, query, fragment, isPath, isQuery, isFragment, rfl⟩
    refine ⟨Reference.authorityText authority ++ path, _, ?_, ?_, query, fragment, isQuery,
      isFragment, rfl⟩
    · simp
    · cases authority with
      | none => exact .inr isPath
      | some authority =>
          exact .inl ⟨[0x2F, 0x2F], authority.text ++ path, List.append_assoc .., rfl, _, _, rfl,
            ⟨authority, rfl⟩, isPath⟩

/-- The texts of the grammar are those of the references. -/
theorem mem_language_main : text ∈ main.language ↔ ∃ reference : Reference, reference.text = text := by
  rw [Outline.main_eq, mem_language_alt, mem_language_seq]
  simp only [mem_language_seq, mem_language_literal, mem_language_reference]
  constructor
  · rintro (⟨scheme, _, rfl, isScheme, _, _, rfl, rfl, authority, path, query, fragment, isPath,
      isQuery, isFragment, rfl⟩ | ⟨authority, path, query, fragment, isPath, isQuery, isFragment, rfl⟩)
    · refine ⟨⟨some scheme, authority, path, query, fragment, ?_, isPath, isQuery, isFragment⟩, ?_⟩
      · rintro _ ⟨⟩
        exact isScheme
      · simp [Reference.text, Reference.rest, before]
        rfl
    · exact ⟨⟨none, authority, path, query, fragment, by rintro _ ⟨⟩, isPath, isQuery, isFragment⟩, rfl⟩
  · rintro ⟨⟨scheme, authority, path, query, fragment, isScheme, isPath, isQuery, isFragment⟩, rfl⟩
    cases scheme with
    | none => exact .inr ⟨authority, path, query, fragment, isPath, isQuery, isFragment, rfl⟩
    | some scheme =>
        refine .inl ⟨scheme, _, ?_, isScheme scheme rfl, [0x3A], _, rfl, rfl, authority, path, query,
          fragment, isPath, isQuery, isFragment, rfl⟩
        simp [Reference.text, Reference.rest, before]

end Language

end Exhy.Uri
