import Exhy.Uri.Authority

/-!
# Userinfos

What comes of an authority that may have a userinfo.  Up to its first colon a userinfo is
followed as a host as well, and digits behind the colon as a port, which moves the mark.
-/

namespace Exhy.Uri

open Library Machine Grammar

/-- A text that starts with a digit. -/
def fromDigit (text : Bytes) : Option Bytes :=
  match text with
  | [] => none
  | code :: _ => if inRanges Grammar.digit code then some text else none

/-- What comes behind the first colon of a userinfo, where it starts with a digit. -/
def behindColon (userinfo : Bytes) : Option Bytes :=
  fromDigit (userinfo.dropWhile (· ≠ 0x3A)).tail

/-- What is saved of a userinfo. -/
def kept (userinfo : Bytes) : Bytes := (behindColon userinfo).getD userinfo

section Userinfo

variable {side : Side} {text more since rest : Bytes} {uri : Uri} {result : Option Uri}
  {others : List (Kind × Bytes)}

theorem dropWhile_of_not_mem (absent : 0x3A ∉ text) (more : Bytes) :
    (text ++ more).dropWhile (· ≠ 0x3A) = more.dropWhile (· ≠ 0x3A) := by
  apply List.dropWhile_append_of_pos
  intro code isCode
  apply decide_eq_true
  rintro rfl
  exact absent isCode

theorem kept_of_not_mem (absent : 0x3A ∉ text) : kept text = text := by
  have none := dropWhile_of_not_mem absent []
  rw [List.append_nil] at none
  rw [kept, behindColon, none]
  rfl

theorem kept_append (absent : 0x3A ∉ text) (more : Bytes) :
    kept (text ++ 0x3A :: more) = (fromDigit more).getD (text ++ 0x3A :: more) := by
  rw [kept, behindColon, dropWhile_of_not_mem absent]
  rfl

/-- A userinfo and the at sign behind it do not end a host or a port. -/
theorem not_stop_of_mem (member : text ++ more ∈ (outline.part (.userinfo side)).language) :
    ∀ code ∈ more ++ [0x40], code ∉ ascii "/?#" := by
  intro code isCode isStop
  rcases List.mem_append.mp isCode with inMore | isAt
  · have isExcluded : code ∈ excluded (.userinfo side) :=
      (by decide : ∀ code ∈ ascii "/?#", code ∈ ascii "/?#@") code isStop
    exact not_mem_of_excluded isExcluded member (List.mem_append_right _ inMore)
  · rw [List.mem_singleton.mp isAt] at isStop
    revert isStop
    decide

/-- A userinfo is left on an at sign only, and has none. -/
theorem taken_in_userinfo {code : UInt8} (member : text ∈ (outline.part (.userinfo side)).language)
    (inside : code ∈ text) : outline.taken code (outline.follow (.userinfo side)) = [] := by
  apply taken_of_not_ends (.userinfo side)
  apply decide_eq_false
  rintro rfl
  exact not_mem_of_excluded (by decide : 0x40 ∈ ascii "/?#@") member inside

/-- Parts that are not left for others up to the at sign, and end with it. -/
structure Passed (more : Bytes) (others : List (Kind × Bytes)) : Prop where
  stay : ∀ code ∈ more ++ [0x40], ∀ entry ∈ others, outline.taken code (outline.follow entry.1) = []
  dead : ∀ entry ∈ others, outline.residual (entry.1, entry.2 ++ more ++ [0x40]) = []

theorem passed_nil (more : Bytes) : Passed more [] :=
  ⟨fun _ _ => nofun, nofun⟩

theorem passed_single {entry : Kind × Bytes}
    (stay : ∀ code ∈ more ++ [0x40], outline.taken code (outline.follow entry.1) = [])
    (dead : outline.residual (entry.1, entry.2 ++ more ++ [0x40]) = []) : Passed more [entry] := by
  constructor
  · intro code isCode other isOther
    rw [List.mem_singleton.mp isOther]
    exact stay code isCode
  · intro other isOther
    rw [List.mem_singleton.mp isOther]
    exact dead

/-- A userinfo up to the at sign, beside parts that are not left before it. -/
theorem yields_userinfo (member : text ++ more ∈ (outline.part (.userinfo side)).language)
    (passed : Passed more others)
    (later : Yields [(.at side, ascii "@")] { uri := { uri with m_userinfo := since ++ more } } rest
      result) :
    Yields ((.userinfo side, text) :: others) ⟨uri, some since⟩ (more ++ 0x40 :: rest) result := by
  apply Yields.inside
  · intro entry isEntry before code after same _
    rcases List.mem_cons.mp isEntry with rfl | isOther
    · exact taken_in_userinfo member (by simp [same])
    · exact passed.stay code (by simp [same]) entry isOther
  · exact ⟨_, List.mem_cons_self, alive_of_mem member⟩
  · apply Yields.onward (Outline.stops_eq.mpr member) (authorityWays side).taken_at.2.1
      (dead_of_excluded (by decide : 0x40 ∈ ascii "/?#@"))
    · intro entry isEntry _
      obtain ⟨before, isBefore, rfl⟩ := List.mem_map.mp isEntry
      exact passed.stay 0x40 (List.mem_append_right _ List.mem_cons_self) before isBefore
    · show _ = some ({ uri := { uri with m_userinfo := since ++ more } } : Seen)
      cases side <;> rfl
    · apply Yields.congr _ later
      intro entry isAlive
      rw [List.mem_cons, List.mem_singleton]
      apply or_iff_left
      rw [List.map_map, List.mem_map]
      rintro ⟨before, isBefore, rfl⟩
      exact isAlive (passed.dead before isBefore)

/-- What comes behind the first colon of a userinfo; a digit there moves the mark. -/
theorem yields_behind_colon (member : text ++ more ∈ (outline.part (.userinfo side)).language)
    (later : Yields [(.at side, ascii "@")]
      { uri := { uri with m_userinfo := (fromDigit more).getD (since ++ more) } } rest result) :
    Yields [(.portColon side, ascii ":"), (.userinfo side, text)] ⟨uri, some since⟩
      (more ++ 0x40 :: rest) result := by
  cases more with
  | nil =>
      apply Yields.swap
      apply yields_userinfo member (passed_single _ (dead_of_word rfl 0x40)) later
      intro code isCode
      rw [List.mem_singleton.mp isCode]
      exact (authorityWays side).taken_at.2.2
  | cons code more =>
      have staysUserinfo : outline.taken code (outline.follow (.userinfo side)) = [] :=
        taken_in_userinfo member (by simp)
      have onwardMember : text ++ [code] ++ more ∈ (outline.part (.userinfo side)).language := by
        rwa [List.append_assoc]
      cases isDigit : outline.takes code (.port side) with
      | true =>
          rw [fromDigit, if_pos (by rwa [← takes_port side])] at later
          apply Yields.onward (stops_of_word rfl) ((authorityWays side).taken_port code isDigit)
            (dead_of_word rfl code)
          · intro entry isEntry _
            rw [List.mem_singleton.mp isEntry]
            exact staysUserinfo
          · show _ = some (⟨uri, some []⟩ : Seen)
            cases side <;> rfl
          · apply Yields.swap
            apply yields_userinfo onwardMember (passed_single _ _) later
            · intro code isCode
              exact taken_of_not_ends _ _ (decide_eq_false (not_stop_of_mem onwardMember code isCode))
            · exact dead_of_excluded (by decide : 0x40 ∈ ascii ":/?#@")
      | false =>
          rw [fromDigit, if_neg (by simp [← takes_port side, isDigit])] at later
          apply Yields.stay
          · simp only [List.forall_mem_cons]
            refine ⟨fun _ => ?_, fun _ => staysUserinfo, fun _ => (absurd · List.not_mem_nil)⟩
            apply (authorityWays side).taken_portColon_other code _ isDigit
            exact not_stop_of_mem member code (by simp)
          · refine ⟨(.userinfo side, text), by simp, Outline.residual_ne_nil onwardMember⟩
          · apply Yields.drop (dead_of_word rfl code)
            have saved : since ++ [code] ++ more = since ++ code :: more := List.append_assoc ..
            apply yields_userinfo onwardMember (passed_nil more)
            rw [saved]
            exact later

/-- A userinfo that is followed as a host up to its first colon. -/
theorem yields_beside_host (member : text ++ more ∈ (outline.part (.userinfo side)).language)
    (absent : 0x3A ∉ text)
    (later : ∀ host, Yields [(.at side, ascii "@")]
      { uri := { uri with m_userinfo := kept (text ++ more), m_host := host } } rest result) :
    Yields [(.host side, text), (.userinfo side, text)] ⟨uri, some text⟩ (more ++ 0x40 :: rest)
      result := by
  have notHost : ∀ part, 0x3A ∉ part → text ++ part ∈ (outline.part (.userinfo side)).language →
      ∀ code ∈ part ++ [0x40], outline.taken code (outline.follow (.host side)) = [] := by
    intro part absent member code isCode
    apply taken_of_not_ends
    apply decide_eq_false
    intro isEnd
    rcases colon_or_stop code isEnd with isColon | isStop
    · rw [isColon, List.mem_append, List.mem_singleton] at isCode
      exact isCode.elim absent (by decide)
    · exact not_stop_of_mem member code isCode isStop
  by_cases isColon : 0x3A ∈ more
  · obtain ⟨first, behind, rfl, noColon⟩ := List.eq_append_cons_of_mem isColon
    rw [← List.append_assoc] at member
    have isFirst : text ++ first ∈ (outline.part (.userinfo side)).language :=
      (mem_userinfo_split member).1
    have none : 0x3A ∉ text ++ first := by
      simp [absent, noColon]
    have isHost : text ++ first ∈ (outline.part (.host side)).language :=
      mem_host_of_userinfo isFirst none
    rw [List.append_assoc]
    apply Yields.inside
    · intro entry isEntry before code after same _
      have inFirst : code ∈ first := by simp [same]
      rcases List.mem_cons.mp isEntry with rfl | isOther
      · exact notHost first noColon isFirst code (List.mem_append_left _ inFirst)
      · rw [List.mem_singleton.mp isOther]
        exact taken_in_userinfo isFirst (List.mem_append_right _ inFirst)
    · exact ⟨_, List.mem_cons_self, alive_of_mem isHost⟩
    · apply Yields.onward (Outline.stops_eq.mpr isHost) (authorityWays side).taken_colon.1
        (dead_host_colon isHost)
      · intro entry isEntry _
        rw [List.mem_singleton.mp isEntry]
        exact taken_in_userinfo member (by simp)
      · show _ = some (⟨{ uri with m_host := text ++ first }, some (text ++ first)⟩ : Seen)
        cases side <;> rfl
      · have whole : text ++ first ++ [0x3A] ++ behind = text ++ first ++ 0x3A :: behind :=
          List.append_assoc ..
        have same := later (text ++ first)
        rw [← List.append_assoc, kept_append none, ← whole] at same
        apply yields_behind_colon _ same
        rw [whole]
        exact member
  · have none : 0x3A ∉ text ++ more := by
      simp [absent, isColon]
    have same := later uri.m_host
    rw [kept_of_not_mem none] at same
    apply Yields.swap
    exact yields_userinfo member (passed_single (notHost more isColon member)
      (dead_of_excluded (by decide : 0x40 ∈ ascii "/?#@"))) same

/-- A userinfo from its beginning. -/
theorem yields_from_userinfo {seen : Seen} {userinfo : Bytes}
    (member : userinfo ∈ (outline.part (.userinfo side)).language)
    (later : ∀ host, Yields [(.at side, ascii "@")]
      { uri := { seen.uri with m_userinfo := kept userinfo, m_host := host } } rest result) :
    Yields [(.slashes side, ascii "//")] seen (userinfo ++ 0x40 :: rest) result := by
  cases userinfo with
  | nil =>
      apply Yields.onward (stops_of_word rfl) (authorityWays side).taken_at.1 (dead_of_word rfl 0x40)
        (Yields.stay_nil 0x40)
      · show _ = some ({ uri := { seen.uri with m_userinfo := [] } } : Seen)
        cases side <;> rfl
      · exact later seen.uri.m_host
  | cons code more =>
      by_cases isColon : code = 0x3A
      · have same := later []
        cases isColon
        rw [← List.nil_append (0x3A :: more), kept_append (List.not_mem_nil)] at same
        apply yields_slashes_colon
        exact yields_behind_colon member same
      · have takes : outline.takes code (.userinfo side) = true := takes_of_mem member
        apply yields_slashes ((authorityWays side).takes_host code takes isColon)
        rw [if_pos takes]
        apply yields_beside_host member _ later
        rw [List.mem_singleton]
        exact Ne.symm isColon

end Userinfo

/-- An authority and the rest of the reference behind the slashes. -/
theorem yields_authority {side : Side} {path : Bytes} {seen : Seen} {tail : Tail} (authority : Authority)
    (isPath : path ∈ path_abempty.language) :
    Yields [(.slashes side, ascii "//")] seen (authority.text ++ (path ++ tail.text))
      (afterHost side { seen.uri with
        m_userinfo := (authority.userinfo.map kept).getD seen.uri.m_userinfo
        m_host := authority.host } authority.port path tail) := by
  obtain ⟨userinfo, host, port, isUserinfo, isHost, isPort⟩ := authority
  rw [Authority.text, List.append_assoc, List.append_assoc]
  cases userinfo with
  | none => exact yields_from_host isPath (.inr rfl) rfl isHost isPort
  | some userinfo =>
      rw [before, List.append_assoc]
      apply yields_from_userinfo (isUserinfo userinfo rfl)
      intro garbage
      exact yields_from_host isPath (.inl rfl) rfl isHost isPort

end Exhy.Uri
