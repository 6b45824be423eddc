import Exhy.Uri.Tail

/-!
# Authorities

What comes of an authority and the rest of the reference.  A text is followed as a host as
long as it may be one, and as a userinfo beside it until a byte decides.
-/

namespace Exhy.Uri

open Library Machine Grammar

/-! ## What is saved -/

/-- The port is read where there are digits. -/
def withPort (uri : Uri) (port : Option Bytes) : Uri :=
  match port with
  | none | some [] => uri
  | some (digit :: rest) => { uri with m_port := atoi (digit :: rest) }

/-- The path is saved behind a scheme; an empty port leaves no mark for it. -/
def withPath (side : Side) (uri : Uri) (port : Option Bytes) (path : Bytes) : Option Uri :=
  match side, port with
  | .relative, _ => some uri
  | .hier, some [] => none
  | .hier, _ => some { uri with m_path := path }

/-- What comes of what follows the host. -/
def afterHost (side : Side) (uri : Uri) (port : Option Bytes) (path : Bytes) (tail : Tail) :
    Option Uri :=
  (withPath side (withPort uri port) port path).map tail.save

/-- The number of a port ends with its digits. -/
theorem atoi_append {digits rest : Bytes} (some : digits ≠ [])
    (areDigits : ∀ byte ∈ digits, (digitValue 10 byte).isSome = true)
    (noDigit : ∀ stop ∈ rest.head?, digitValue 10 stop = none ∧ stop ≠ 0x58 ∧ stop ≠ 0x78) :
    atoi (digits ++ rest) = toInt32 (min (readDigits 10 0 digits : Int) (2 ^ 63 - 1)) :=
  congrArg toInt32 (strtol_digits_append some (by decide) areDigits noDigit)

/-- A port ends at the path, the query or the fragment. -/
theorem atoi_port {digits rest : Bytes} (some : digits ≠ [])
    (areDigits : ∀ byte ∈ digits, (digitValue 10 byte).isSome = true)
    (isEnd : ∀ stop ∈ rest.head?, stop ∈ ascii "/?#") : atoi (digits ++ rest) = atoi digits := by
  have noDigit : ∀ stop ∈ ascii "/?#", digitValue 10 stop = none ∧ stop ≠ 0x58 ∧ stop ≠ 0x78 := by
    decide
  have alone : atoi (digits ++ []) = _ := atoi_append some areDigits nofun
  rw [List.append_nil] at alone
  rw [alone]
  exact atoi_append some areDigits fun stop isStop => noDigit stop (isEnd stop isStop)

theorem digits_of_mem_port {text : Bytes} (member : text ∈ Grammar.port.language) :
    ∀ byte ∈ text, (digitValue 10 byte).isSome = true := by
  intro byte isByte
  obtain ⟨ranges, isClass, inside⟩ := classes_of_mem_language member byte isByte
  rw [List.mem_singleton.mp isClass] at inside
  have isDigit : ∀ byte, inRanges digit byte = true → (digitValue 10 byte).isSome = true :=
    forall_byte (by decide +kernel)
  exact isDigit byte inside

/-- A port is saved in front of the path, the query or the fragment. -/
theorem perform_save_port {digits rest : Bytes} (member : digits ∈ Grammar.port.language)
    (isEnd : ∀ stop ∈ rest.head?, stop ∈ ascii "/?#") (uri : Uri) :
    (⟨uri, some digits⟩ : Seen).perform rest .save_port = some ⟨withPort uri (some digits), none⟩ := by
  cases digits with
  | nil => rfl
  | cons digit later =>
      rw [withPort, ← atoi_port (List.cons_ne_nil _ _) (digits_of_mem_port member) isEnd]
      rfl

section Authority

variable {side : Side} {text more path rest : Bytes} {uri : Uri} {seen : Seen}
  {port : Option Bytes} {others : List (Kind × Bytes)} {tail : Tail}

/-! ## Userinfos that are followed beside -/

/-- The other parts may be a userinfo. -/
def Beside (side : Side) (others : List (Kind × Bytes)) : Prop :=
  ∀ entry ∈ others, entry.1 = .userinfo side

theorem beside_nil (side : Side) : Beside side [] := nofun

theorem Beside.stay {code : UInt8} (beside : Beside side others) (other : code ≠ 0x40) :
    Yields.Stay code others := by
  intro entry isEntry _
  rw [beside entry isEntry]
  exact taken_of_not_ends _ code (decide_eq_false other)

theorem Beside.toOver (beside : Beside side others) : Yields.Over (ascii "/?#") others where
  stay code isCode := beside.stay fun isAt => absurd (isAt ▸ isCode) (by decide)
  dead code isCode entry isEntry := by
    rw [beside entry isEntry]
    apply dead_of_excluded
    exact (by decide : ∀ code ∈ ascii "/?#", code ∈ ascii "/?#@") code isCode
  mute entry isEntry _ := by
    rw [beside entry isEntry]
    rfl

theorem Beside.append (beside : Beside side others) (text : Bytes) :
    Beside side (others.map fun entry => (entry.1, entry.2 ++ text)) :=
  List.forall_mem_map.mpr beside

/-! ## The first byte of an authority -/

/-- A host, a userinfo or both may begin behind the slashes. -/
theorem yields_slashes {code : UInt8} {result : Option Uri}
    (takes : outline.takes code (.host side) = true)
    (later : Yields ((.host side, [code]) ::
      if outline.takes code (.userinfo side) then [(.userinfo side, [code])] else [])
        ⟨seen.uri, some [code]⟩ rest result) :
    Yields [(.slashes side, ascii "//")] seen (code :: rest) result := by
  have areTaken := (authorityWays side).taken_slashes_host code takes
  cases isUserinfo : outline.takes code (.userinfo side) with
  | false =>
      rw [isUserinfo, if_neg Bool.false_ne_true] at areTaken later
      apply Yields.onward (stops_of_word rfl) areTaken (dead_of_word rfl code) (Yields.stay_nil code)
      · show _ = some (⟨seen.uri, some []⟩ : Seen)
        cases side <;> rfl
      · exact later
  | true =>
      rw [isUserinfo, if_pos rfl] at areTaken later
      apply Yields.branch (stops_of_word rfl) areTaken (List.cons_ne_nil _ _) (dead_of_word rfl code)
        (Yields.stay_nil code)
      · show _ = some (⟨seen.uri, some []⟩ : Seen)
        cases side <;> rfl
      · exact later.swap

theorem yields_slashes_colon {result : Option Uri}
    (later : Yields [(.portColon side, ascii ":"), (.userinfo side, ascii ":")]
      ⟨{ seen.uri with m_host := [] }, some (ascii ":")⟩ rest result) :
    Yields [(.slashes side, ascii "//")] seen (0x3A :: rest) result := by
  apply Yields.branch (stops_of_word rfl) (authorityWays side).taken_colon.2.2 (List.cons_ne_nil _ _)
    (dead_of_word rfl _) (Yields.stay_nil _)
  · show _ = some (⟨{ seen.uri with m_host := [] }, some []⟩ : Seen)
    cases side <;> rfl
  · exact later.swap

/-- The first byte of a host, behind the slashes or behind a userinfo. -/
theorem yields_first {kind : Kind} {code : UInt8} {result : Option Uri}
    (isKind : kind = .at side ∨ kind = .slashes side) (isWord : word kind = some text)
    (takes : outline.takes code (.host side) = true)
    (later : ∀ others, Beside side others →
      Yields ((.host side, [code]) :: others) ⟨seen.uri, some [code]⟩ rest result) :
    Yields [(kind, text)] seen (code :: rest) result := by
  rcases isKind with rfl | rfl
  · apply Yields.onward (stops_of_word isWord) ((authorityWays side).taken_at_host code takes)
      (dead_of_word isWord code) (Yields.stay_nil code)
    · show _ = some (⟨seen.uri, some []⟩ : Seen)
      cases side <;> rfl
    · exact later [] nofun
  · cases isWord
    apply yields_slashes takes
    apply later
    intro entry isEntry
    split at isEntry
    next => rw [List.mem_singleton.mp isEntry]
    next => cases isEntry

/-- The colon behind an empty host. -/
theorem yields_first_colon {kind : Kind} {result : Option Uri}
    (isKind : kind = .at side ∨ kind = .slashes side) (isWord : word kind = some text)
    (later : ∀ others, Beside side others → Yields ((.portColon side, ascii ":") :: others)
      ⟨{ seen.uri with m_host := [] }, some (ascii ":")⟩ rest result) :
    Yields [(kind, text)] seen (0x3A :: rest) result := by
  rcases isKind with rfl | rfl
  · apply Yields.onward (stops_of_word isWord) (authorityWays side).taken_colon.2.1
      (dead_of_word isWord _)
      (Yields.stay_nil _)
    · show _ = some (⟨{ seen.uri with m_host := [] }, some []⟩ : Seen)
      cases side <;> rfl
    · exact later [] nofun
  · cases isWord
    apply yields_slashes_colon
    apply later
    intro entry isEntry
    rw [List.mem_singleton.mp isEntry]

/-! ## Behind the host -/

theorem tail_head {stop : UInt8} (isStop : stop ∈ tail.text.head?) : stop ∈ ascii "?#" := by
  obtain ⟨query, fragment, isQuery, isFragment⟩ := tail
  cases query with
  | some text =>
      cases isStop
      decide
  | none =>
      cases fragment with
      | some text =>
          cases isStop
          decide
      | none => cases isStop

section Path

variable (isPath : path ∈ path_abempty.language)

include isPath

theorem path_head {stop : UInt8} (isStop : stop ∈ (path ++ tail.text).head?) : stop ∈ ascii "/?#" := by
  cases path with
  | nil => exact List.mem_cons_of_mem _ (tail_head isStop)
  | cons code more =>
      have starts : code :: more ∈ (outline.part (.segments .hier)).language := isPath
      cases isStop
      rw [slash_of_mem_part starts]
      decide

/-- What a part of the authority leaves: the mark is where the path begins, unless the port is
empty. -/
theorem yields_afterHost {entry : Kind × Bytes} {numbers : List Nat} {since : Option Bytes}
    (leads : pathOf entry.1 = some (side, numbers)) (stops : outline.stops entry = true)
    (beside : Beside side others)
    (performed : seen.performAll (path ++ tail.text)
      (inOrder outline.action (numbers ++ Outline.entersPath side)) =
        some ⟨withPort uri port, since⟩)
    (marked : side = .hier → since = if port = some [] then none else some []) :
    Yields (entry :: others) seen (path ++ tail.text) (afterHost side uri port path tail) := by
  have onward := @yields_path side path seen entry others tail numbers leads stops beside.toOver isPath
  rw [performed, Option.bind_some] at onward
  cases side with
  | relative => exact onward
  | hier =>
      rw [marked rfl] at onward
      cases port with
      | none => exact onward
      | some digits =>
          cases digits with
          | nil => exact onward
          | cons digit later => exact onward

theorem yields_port (beside : Beside side others)
    (member : text ++ more ∈ (outline.part (.port side)).language) (nonempty : text ≠ []) :
    Yields ((.port side, text) :: others) ⟨uri, some text⟩ (more ++ (path ++ tail.text))
      (afterHost side uri (some (text ++ more)) path tail) := by
  apply Yields.within member
  · rintro entry isEntry code isEnd
    rcases List.mem_cons.mp isEntry with rfl | isOther
    · exact (by decide : ∀ code ∈ ascii "/?#", code ∈ ascii ":/?#@") code (of_decide_eq_true isEnd)
    · rw [beside entry isOther] at isEnd
      rw [of_decide_eq_true isEnd]
      exact (by decide : 0x40 ∈ ascii ":/?#@")
  · have saved : (⟨uri, some (text ++ more)⟩ : Seen).perform (path ++ tail.text) .save_port = _ :=
      perform_save_port member (fun _ => path_head isPath) uri
    cases side with
    | hier =>
        have performed : (⟨uri, some (text ++ more)⟩ : Seen).performAll (path ++ tail.text)
            [.save_port, .markh] = some ⟨withPort uri (some (text ++ more)), some []⟩ := by
          rw [Seen.performAll, saved]
          rfl
        apply yields_afterHost isPath rfl (Outline.stops_eq.mpr member) (beside.append more) performed
        intro _
        rw [if_neg (by simp [nonempty])]
    | relative =>
        have performed : (⟨uri, some (text ++ more)⟩ : Seen).performAll (path ++ tail.text)
            [.save_port] = some ⟨withPort uri (some (text ++ more)), none⟩ := by
          rw [Seen.performAll, saved]
          rfl
        exact yields_afterHost isPath rfl (Outline.stops_eq.mpr member) (beside.append more) performed
          (by rintro ⟨⟩)

theorem yields_portColon (beside : Beside side others)
    (member : text ∈ (outline.part (.port side)).language) :
    Yields ((.portColon side, ascii ":") :: others) seen (text ++ (path ++ tail.text))
      (afterHost side seen.uri (some text) path tail) := by
  have stops : outline.stops (.portColon side, ascii ":") = true :=
    Outline.stops_eq.mpr (mem_language_literal.mpr rfl)
  cases text with
  | nil =>
      have performed : seen.performAll (path ++ tail.text) [.markh, .save_port] =
        some ⟨seen.uri, none⟩ := rfl
      cases side with
      | hier => exact yields_afterHost isPath rfl stops beside performed fun _ => rfl
      | relative => exact yields_afterHost isPath rfl stops beside performed nofun
  | cons code more =>
      have isExcluded : 0x40 ∈ excluded (.port side) := (by decide : 0x40 ∈ ascii ":/?#@")
      apply Yields.onward stops ((authorityWays side).taken_port code (takes_of_mem member))
        (dead_of_word rfl code)
        (beside.stay (ne_of_excluded isExcluded member))
      · show _ = some (⟨seen.uri, some []⟩ : Seen)
        cases side <;> rfl
      · exact yields_port isPath (beside.append [code]) member (List.cons_ne_nil _ _)

/-- A host and what follows it, with the mark where it begins. -/
theorem yields_host (beside : Beside side others)
    (member : text ++ more ∈ (outline.part (.host side)).language)
    (isPort : ∀ text ∈ port, text ∈ (outline.part (.port side)).language) :
    Yields ((.host side, text) :: others) ⟨uri, some text⟩
      (more ++ (behind 0x3A port ++ (path ++ tail.text)))
      (afterHost side { uri with m_host := text ++ more } port path tail) := by
  apply Yields.inside
  · intro entry isEntry before code after same stops
    apply taken_of_not_ends
    apply Bool.eq_false_iff.mpr
    intro isEnd
    have noEnd : ∀ stop ∈ ascii "/?#@", code ≠ stop := by
      rintro stop isStop rfl
      exact not_mem_of_excluded (show code ∈ excluded (.host side) from isStop) member (by simp [same])
    rcases List.mem_cons.mp isEntry with rfl | isOther
    · have isColon : code = 0x3A := by
        apply (colon_or_stop code (of_decide_eq_true isEnd)).resolve_right
        intro isStop
        have within : ∀ stop ∈ ascii "/?#", stop ∈ ascii "/?#@" := by decide
        exact noEnd code (within code isStop) rfl
      apply not_mem_host_colon (Outline.stops_eq.mp stops) after
      rw [List.append_assoc, ← isColon, ← same]
      exact member
    · rw [beside entry isOther] at isEnd
      exact noEnd 0x40 (by decide) (of_decide_eq_true isEnd)
  · exact ⟨_, List.mem_cons_self, alive_of_mem member⟩
  · have isHost : outline.stops (.host side, text ++ more) = true := Outline.stops_eq.mpr member
    cases port with
    | none =>
        cases side with
        | hier =>
            have performed : (⟨uri, some (text ++ more)⟩ : Seen).performAll (path ++ tail.text)
                [.save_host, .markh] = some ⟨{ uri with m_host := text ++ more }, some []⟩ := rfl
            exact yields_afterHost isPath rfl isHost (beside.append more) performed fun _ => rfl
        | relative =>
            have performed : (⟨uri, some (text ++ more)⟩ : Seen).performAll (path ++ tail.text)
                [.save_host] = some ⟨{ uri with m_host := text ++ more }, some (text ++ more)⟩ := rfl
            exact yields_afterHost isPath rfl isHost (beside.append more) performed nofun
    | some digits =>
        have dead : outline.residual (.host side, text ++ more ++ [0x3A]) = [] :=
          dead_host_colon member
        apply Yields.onward isHost (authorityWays side).taken_colon.1 dead
          ((beside.append more).stay (by decide))
        · show _ = some (⟨{ uri with m_host := text ++ more }, some (text ++ more)⟩ : Seen)
          cases side <;> rfl
        · exact yields_portColon isPath ((beside.append more).append _) (isPort digits rfl)

/-- A host from its beginning, behind the slashes or behind a userinfo. -/
theorem yields_from_host {kind : Kind} (isKind : kind = .at side ∨ kind = .slashes side)
    (isWord : word kind = some text) {host : Bytes}
    (member : host ∈ (outline.part (.host side)).language)
    (isPort : ∀ text ∈ port, text ∈ (outline.part (.port side)).language) :
    Yields [(kind, text)] seen (host ++ (behind 0x3A port ++ (path ++ tail.text)))
      (afterHost side { seen.uri with m_host := host } port path tail) := by
  cases host with
  | cons code more =>
      apply yields_first isKind isWord (takes_of_mem member)
      intro others beside
      exact yields_host isPath beside member isPort
  | nil =>
      cases port with
      | some digits =>
          apply yields_first_colon isKind isWord
          intro others beside
          exact yields_portColon isPath beside (isPort digits rfl)
      | none =>
          have stops : outline.stops (kind, text) = true := stops_of_word isWord
          have performed : seen.performAll (path ++ tail.text) [.markh, .save_host] =
            some ⟨{ seen.uri with m_host := [] }, some []⟩ := rfl
          rcases isKind with rfl | rfl
          · cases side <;>
              exact yields_afterHost isPath rfl stops (beside_nil _) performed fun _ => rfl
          · cases side <;>
              exact yields_afterHost isPath rfl stops (beside_nil _) performed fun _ => rfl

end Path

end Authority

end Exhy.Uri
