import Exhy.Uri.Components

/-!
# Printing and parsing

When the text that `toString` writes gives the same components again.
-/

namespace Exhy.Uri

open Library Machine Grammar

/-- The getters give the same. -/
structure Same (uri other : Uri) : Prop where
  scheme : other.getScheme = uri.getScheme
  userinfo : other.getUserinfo = uri.getUserinfo
  host : other.getHost = uri.getHost
  port : other.getPort = uri.getPort
  path : other.getPath = uri.getPath
  query : other.getQuery = uri.getQuery
  fragment : other.getFragment = uri.getFragment

/-! ## What is printed -/

/-- A component that is printed where it is not empty. -/
def present (text : Bytes) : Option Bytes := if text = [] then none else some text

theorem mem_present {text other : Bytes} (member : other ∈ present text) : other = text := by
  rw [present] at member
  split at member
  next => cases member
  next =>
    cases member
    rfl

theorem getD_present (text : Bytes) : (present text).getD [] = text := by
  rw [present]
  split
  next nothing => exact nothing.symm
  next => rfl

theorem before_present (text : Bytes) (stop : UInt8) :
    before (present text) stop = text ++ if text = [] then [] else [stop] := by
  rw [present]
  split
  next nothing => rw [nothing]; rfl
  next => rfl

theorem behind_present (start : UInt8) (text : Bytes) :
    behind start (present text) = (if text = [] then [] else [start]) ++ text := by
  rw [present]
  split
  next nothing => rw [nothing]; rfl
  next => rfl

section Printing

variable (uri : Uri)

/-- The port as it is printed. -/
def portText : Bytes := if uri.isDefaultPort then [] else ascii ":" ++ to_string uri.m_port

/-- The query and the fragment as they are printed. -/
def tailText : Bytes :=
  behind 0x3F (present uri.m_query) ++ behind 0x23 (present uri.m_fragment)

theorem toString_eq : uri.toString = before (some uri.m_scheme) 0x3A ++ ([0x2F, 0x2F] ++
    (before (present uri.m_userinfo) 0x40 ++ (uri.m_host ++ uri.portText) ++
      (uri.getPath ++ uri.tailText))) := by
  have scheme : before (some uri.m_scheme) 0x3A = uri.m_scheme ++ [0x3A] := rfl
  have colon : ascii "://" = 0x3A :: [0x2F, 0x2F] := rfl
  have sign : ascii "@" = [0x40] := rfl
  have mark : ascii "?" = [0x3F] := rfl
  have hash : ascii "#" = [0x23] := rfl
  simp only [toString, portText, tailText, before_present, behind_present, scheme, colon, sign, mark, hash,
    List.append_assoc, List.cons_append, List.nil_append]

/-- The same port is got where a default one is left out. -/
theorem getPort_of_default {uri other : Uri} (isDefault : uri.isDefaultPort = true)
    (scheme : other.m_scheme = uri.m_scheme) (port : other.m_port = 0) :
    other.getPort = uri.getPort := by
  rw [isDefaultPort] at isDefault
  rw [getPort, getPort, port, scheme]
  split at isDefault
  next nothing => rw [nothing]
  next something =>
    rw [if_pos something]
    split at isDefault
    next isHttp =>
      rw [if_neg (not_not.mpr rfl), if_pos isHttp]
      exact (of_decide_eq_true isDefault).symm
    next notHttp =>
      rw [if_neg (not_not.mpr rfl), if_neg notHttp]
      split at isDefault
      next isHttps =>
        rw [if_pos isHttps]
        exact (of_decide_eq_true isDefault).symm
      next => cases isDefault

end Printing

/-! ## The reference that is printed -/

theorem fromDigit_eq_some {text other : Bytes} (isText : fromDigit text = some other) : text = other := by
  rw [fromDigit.eq_def] at isText
  split at isText
  next => cases isText
  next =>
    split at isText
    next =>
      cases isText
      rfl
    next => cases isText

theorem mem_kept {userinfo : Bytes} (member : userinfo ∈ Grammar.userinfo.language) :
    kept userinfo ∈ Grammar.userinfo.language := by
  by_cases isColon : 0x3A ∈ userinfo
  · obtain ⟨first, behind, rfl, absent⟩ := List.eq_append_cons_of_mem isColon
    rw [kept_append absent]
    cases isBehind : fromDigit behind with
    | none => exact member
    | some text =>
        rw [Option.getD_some, ← fromDigit_eq_some isBehind]
        exact (mem_userinfo_split member).2
  · rwa [kept_of_not_mem isColon]

/-- The components may be printed, but for a negative port. -/
structure Printable (uri : Uri) : Prop where
  isScheme : uri.m_scheme ∈ Grammar.scheme.language
  isUserinfo : uri.m_userinfo ∈ Grammar.userinfo.language
  isHost : uri.m_host ∈ Grammar.host.language
  isPath : uri.getPath ∈ path_abempty.language
  isQuery : uri.m_query ∈ pchars.language
  isFragment : uri.m_fragment ∈ pchars.language

theorem nil_mem_pchars : [] ∈ (pchars : Machine Action).language :=
  isSome_exit.mp rfl

theorem printable_saved {reference : Reference} {scheme : Bytes} {authority : Authority}
    (hasScheme : reference.scheme = some scheme) (hasAuthority : reference.authority = some authority) :
    Printable reference.saved := by
  obtain ⟨_, _, path, query, fragment, isScheme, isPath, isQuery, isFragment⟩ := reference
  cases hasScheme
  cases hasAuthority
  constructor
  · exact isScheme scheme rfl
  · show ((authority.userinfo.map kept).getD []) ∈ _
    cases isUserinfo : authority.userinfo with
    | none => exact isSome_exit.mp rfl
    | some userinfo => exact mem_kept (authority.isUserinfo userinfo isUserinfo)
  · exact authority.isHost
  · show (if path = [] then ascii "/" else path) ∈ _
    split
    next => exact (final_walk rfl _).mp (by decide +kernel)
    next => exact isPath
  · cases query with
    | none => exact nil_mem_pchars
    | some text => exact isQuery text rfl
  · cases fragment with
    | none => exact nil_mem_pchars
    | some text => exact isFragment text rfl

theorem decimal_mem_port (number : Nat) : decimal number ∈ Grammar.port.language := by
  have isDigit : ∀ byte, (digitValue 10 byte).isSome = true → inRanges Grammar.digit byte = true :=
    forall_byte (by decide +kernel)
  exact mem_language_star_bytes fun byte isByte => isDigit byte (decimal_digits isByte)

/-- The reference that is printed. -/
def printed (uri : Uri) (printable : Printable uri) : Reference where
  scheme := some uri.m_scheme
  authority := some {
    userinfo := present uri.m_userinfo
    host := uri.m_host
    port := if uri.isDefaultPort then none else some (decimal uri.m_port.natAbs)
    isUserinfo := fun text isText => mem_present isText ▸ printable.isUserinfo
    isHost := printable.isHost
    isPort := by
      intro text isText
      split at isText
      next => cases isText
      next =>
        cases isText
        exact decimal_mem_port _ }
  path := uri.getPath
  query := present uri.m_query
  fragment := present uri.m_fragment
  isScheme := fun text isText => Option.some_inj.mp isText ▸ printable.isScheme
  isPath := printable.isPath
  isQuery := fun text isText => mem_present isText ▸ printable.isQuery
  isFragment := fun text isText => mem_present isText ▸ printable.isFragment

section Printed

variable {uri : Uri} {printable : Printable uri}

theorem text_printed (notNegative : 0 ≤ uri.m_port) : (printed uri printable).text = uri.toString := by
  have isPort : behind 0x3A (if uri.isDefaultPort then none else some (decimal uri.m_port.natAbs)) =
      uri.portText := by
    rw [portText]
    split
    next => rfl
    next =>
      rw [to_string, if_neg (Int.not_lt.mpr notNegative)]
      rfl
  have text : (printed uri printable).text = before (some uri.m_scheme) 0x3A ++ ([0x2F, 0x2F] ++
      (before (present uri.m_userinfo) 0x40 ++ uri.m_host ++ behind 0x3A
        (if uri.isDefaultPort then none else some (decimal uri.m_port.natAbs))) ++ uri.getPath ++
          behind 0x3F (present uri.m_query) ++ behind 0x23 (present uri.m_fragment)) := rfl
  rw [text, isPort, toString_eq, tailText]
  simp only [List.append_assoc]

theorem Create_toString (notNegative : 0 ≤ uri.m_port) :
    Create uri.toString = some (some (printed uri printable).saved) := by
  rw [← text_printed notNegative, Create_text, Reference.result_eq, if_neg]
  · rfl
  · rintro ⟨-, isEmpty⟩
    have port : (printed uri printable).port =
        if uri.isDefaultPort then none else some (decimal uri.m_port.natAbs) := rfl
    rw [port] at isEmpty
    split at isEmpty
    next => cases isEmpty
    next => exact decimal_ne_nil _ (Option.some_inj.mp isEmpty)

/-- A port that is printed is read again. -/
theorem getPort_printed (notNegative : 0 ≤ uri.m_port) (small : uri.m_port < 2 ^ 31) :
    (printed uri printable).saved.getPort = uri.getPort := by
  have port : (printed uri printable).saved.m_port =
      ((if uri.isDefaultPort then none else some (decimal uri.m_port.natAbs)).map atoi).getD 0 := rfl
  cases isDefault : uri.isDefaultPort with
  | true =>
      rw [isDefault] at port
      exact getPort_of_default isDefault rfl port
  | false =>
      have number : atoi (decimal uri.m_port.natAbs) = uri.m_port := by
        rw [atoi_decimal (decimal_mem_port _) (by omega)]
        omega
      rw [isDefault, if_neg Bool.false_ne_true, Option.map_some, Option.getD_some, number] at port
      rw [getPort, getPort, port]
      rfl

/-- What is printed gives the same but for the userinfo. -/
theorem same_iff (notNegative : 0 ≤ uri.m_port) (small : uri.m_port < 2 ^ 31) :
    Same uri (printed uri printable).saved ↔ kept uri.m_userinfo = uri.m_userinfo := by
  have userinfo : (printed uri printable).saved.getUserinfo = kept uri.m_userinfo := by
    show ((present uri.m_userinfo).map kept).getD [] = _
    rw [present]
    split
    next nothing =>
      rw [nothing]
      rfl
    next => rfl
  constructor
  · intro same
    rw [← userinfo]
    exact same.userinfo
  · intro stays
    constructor
    · rfl
    · rw [userinfo]
      exact stays
    · rfl
    · exact getPort_printed notNegative small
    · have some : uri.getPath ≠ [] := by
        rw [getPath]
        split
        next => exact List.cons_ne_nil _ _
        next some => exact some
      exact if_neg some
    · exact getD_present uri.m_query
    · exact getD_present uri.m_fragment

end Printed

/-! ## Negative ports -/

section Negative

variable {uri : Uri} {text other left right rest more : Bytes} {userinfo after : Option Bytes}

/-- A text and what stops it. -/
theorem takeWhile_of_stop {stops : Bytes} (inside : ∀ code ∈ text, code ∉ stops)
    (stop : ∀ code ∈ rest.head?, code ∈ stops) :
    (text ++ rest).takeWhile (fun code => decide (code ∉ stops)) = text := by
  rw [List.takeWhile_append_of_pos fun code isCode => decide_eq_true (inside code isCode)]
  apply List.append_right_eq_self.mpr
  cases rest with
  | nil => rfl
  | cons code later => rw [List.takeWhile_cons_of_neg (by simpa using stop code rfl)]

/-- What comes behind the last at sign. -/
theorem eq_of_before_append (leftAbsent : 0x40 ∉ left) (rightAbsent : 0x40 ∉ right)
    (absent : ∀ text ∈ userinfo, 0x40 ∉ text)
    (same : before userinfo 0x40 ++ left = before after 0x40 ++ right) : left = right := by
  cases userinfo with
  | none =>
      cases after with
      | none => exact same
      | some text =>
          have inLeft : 0x40 ∈ left := by
            rw [show left = before (some text) 0x40 ++ right from same]
            simp [before]
          exact absurd inLeft leftAbsent
  | some text =>
      cases after with
      | none =>
          have inRight : 0x40 ∈ right := by
            rw [show right = before (some text) 0x40 ++ left from same.symm]
            simp [before]
          exact absurd inRight rightAbsent
      | some other =>
          have split : text ++ 0x40 :: left = other ++ 0x40 :: right := by
            simpa [before] using same
          exact ((List.append_cons_inj_of_notMem (absent text rfl) leftAbsent).mp split).2.2

/-- The bytes of an authority do not end it. -/
theorem not_stop_of_mem_authority (isUserinfo : ∀ text ∈ userinfo, text ∈ Grammar.userinfo.language)
    (isHost : text ∈ Grammar.host.language) (noStop : ∀ code ∈ more, code ∉ ascii "/?#@") :
    ∀ code ∈ before userinfo 0x40 ++ (text ++ more), code ∉ ascii "/?#" := by
  have excludes : ∀ code ∈ ascii "/?#", code ∈ ascii "/?#@" := by decide
  intro code isCode isStop
  rcases List.mem_append.mp isCode with inUserinfo | isCode
  · cases userinfo with
    | none => cases inUserinfo
    | some text =>
        rcases List.mem_append.mp inUserinfo with inText | isAt
        · exact @not_mem_of_excluded (.userinfo .hier) text code (excludes code isStop)
            (isUserinfo text rfl) inText
        · rw [List.mem_singleton.mp isAt] at isStop
          revert isStop
          decide
  · rcases List.mem_append.mp isCode with inHost | inMore
    · exact @not_mem_of_excluded (.host .hier) text code (excludes code isStop) isHost inHost
    · exact noStop code inMore (excludes code isStop)

/-- A path without an authority and what follows it do not start with two slashes. -/
theorem not_slashes_append {side : Side} {path : Bytes} {tail : Tail}
    (member : path ∈ (outline.part (.path side)).language) :
    path ++ tail.text ≠ 0x2F :: 0x2F :: rest := by
  have notHead : ∀ rest, tail.text ≠ 0x2F :: rest := by
    intro rest same
    have isStop : 0x2F ∈ ascii "?#" := tail_head (by rw [same]; rfl)
    revert isStop
    decide
  intro same
  cases path with
  | nil => exact notHead _ same
  | cons first path =>
      obtain ⟨isFirst, onward⟩ := List.cons.inj same
      cases isFirst
      cases path with
      | nil => exact notHead rest onward
      | cons second path =>
          cases (List.cons.inj onward).1
          have stops : outline.stops (.slashes side, ascii "//") = true := stops_of_word rfl
          rw [@not_slashes side (ascii "//") path member] at stops
          cases stops

/-- A port does not start with a minus. -/
theorem not_minus {port : Option Bytes}
    (isPort : ∀ digits ∈ port, digits ∈ Grammar.port.language) :
    text ++ behind 0x3A port ≠ text ++ 0x3A :: 0x2D :: rest := by
  intro same
  have isMinus := List.append_cancel_left same
  cases port with
  | none => cases isMinus
  | some digits =>
      cases isMinus
      have isDigit := digits_of_mem_port (isPort _ rfl) 0x2D List.mem_cons_self
      revert isDigit
      decide

theorem portText_of_negative (negative : uri.m_port < 0) :
    uri.portText = 0x3A :: 0x2D :: decimal uri.m_port.natAbs := by
  have notDefault : uri.isDefaultPort = false := by
    rw [isDefaultPort, if_neg (by omega)]
    split
    next => exact decide_eq_false (by omega)
    next =>
      split
      next => exact decide_eq_false (by omega)
      next => rfl
  rw [portText, notDefault, if_neg Bool.false_ne_true, to_string, if_pos negative]
  rfl

theorem digit_not_stop {code : UInt8} (isDigit : (digitValue 10 code).isSome = true) :
    code ∉ ascii "/?#@" := by
  intro isStop
  have noDigit : ∀ code ∈ ascii "/?#@", digitValue 10 code = none := by decide
  rw [noDigit code isStop] at isDigit
  cases isDigit

theorem not_stop_of_port {port : Option Bytes} (isPort : ∀ digits ∈ port, digits ∈ Grammar.port.language) :
    ∀ code ∈ behind 0x3A port, code ∉ ascii "/?#@" := by
  cases port with
  | none => exact nofun
  | some digits =>
      intro code isCode
      rcases List.mem_cons.mp isCode with rfl | inDigits
      · decide
      · exact digit_not_stop (digits_of_mem_port (isPort digits rfl) code inDigits)

theorem not_stop_of_portText (negative : uri.m_port < 0) :
    ∀ code ∈ uri.portText, code ∉ ascii "/?#@" := by
  intro code isCode
  rw [portText_of_negative negative, List.mem_cons, List.mem_cons] at isCode
  rcases isCode with rfl | rfl | inDigits
  · decide
  · decide
  · exact digit_not_stop (decimal_digits inDigits)

/-- A host and what follows it have no at sign. -/
theorem no_at_of_host (isHost : text ∈ Grammar.host.language)
    (noStop : ∀ code ∈ more, code ∉ ascii "/?#@") :
    0x40 ∉ text ++ more := by
  intro isAt
  rcases List.mem_append.mp isAt with inHost | inMore
  · exact @not_mem_of_excluded (.host .hier) text 0x40 (by decide) isHost inHost
  · exact noStop 0x40 inMore (by decide)

/-- No reference with the same scheme and host has the text that is printed of a negative port. -/
theorem text_ne_toString (printable : Printable uri) (negative : uri.m_port < 0) {reference : Reference}
    (scheme : reference.scheme = some uri.m_scheme)
    (host : ∀ authority ∈ reference.authority, authority.host = uri.m_host) :
    reference.text ≠ uri.toString := by
  intro same
  have isPath := reference.isPath
  rw [scheme] at isPath
  rw [toString_eq, Reference.text, scheme, Reference.rest_eq] at same
  have behindScheme := List.append_cancel_left same
  cases hasAuthority : reference.authority with
  | none =>
      rw [hasAuthority] at isPath behindScheme
      exact @not_slashes_append _ .hier _ _ isPath behindScheme
  | some authority =>
      rw [hasAuthority] at isPath behindScheme
      rw [Reference.authorityText, List.append_assoc] at behindScheme
      have both := List.append_cancel_left behindScheme
      have noStop := not_stop_of_port authority.isPort
      have noStopPrinted := not_stop_of_portText negative
      have authorities : before authority.userinfo 0x40 ++ (authority.host ++ behind 0x3A authority.port) =
          before (present uri.m_userinfo) 0x40 ++ (uri.m_host ++ uri.portText) := by
        have inside := not_stop_of_mem_authority authority.isUserinfo authority.isHost noStop
        have insidePrinted := not_stop_of_mem_authority
          (fun text isText => mem_present isText ▸ printable.isUserinfo) printable.isHost noStopPrinted
        have heads := @path_head reference.path reference.tail isPath
        have headsPrinted := @path_head uri.getPath (printed uri printable).tail printable.isPath
        have mine := takeWhile_of_stop inside fun _ => heads
        have theirs := takeWhile_of_stop insidePrinted fun _ => headsPrinted
        rw [Authority.text, List.append_assoc (before _ _)] at both
        exact mine.symm.trans ((congrArg _ both).trans theirs)
      have hosts : authority.host ++ behind 0x3A authority.port = uri.m_host ++ uri.portText :=
        eq_of_before_append (no_at_of_host authority.isHost noStop)
          (no_at_of_host printable.isHost noStopPrinted)
          (fun text isText => @not_mem_of_excluded (.userinfo .hier) text 0x40 (by decide)
            (authority.isUserinfo text isText)) authorities
      rw [host authority hasAuthority, portText_of_negative negative] at hosts
      exact not_minus authority.isPort hosts

theorem not_same_of_negative {again : Uri} (printable : Printable uri) (negative : uri.m_port < 0)
    (created : Create uri.toString = some (some again)) : ¬Same uri again := by
  intro same
  obtain ⟨reference, isText⟩ := exists_reference created
  rw [saved_of_Create created isText] at same
  have sameScheme : reference.scheme.getD [] = uri.m_scheme := same.scheme
  have sameHost : reference.host.getD [] = uri.m_host := same.host
  have scheme : reference.scheme = some uri.m_scheme := by
    cases isScheme : reference.scheme with
    | none =>
        rw [isScheme] at sameScheme
        have isEmpty := printable.isScheme
        rw [← sameScheme] at isEmpty
        cases isSome_exit.mpr isEmpty
    | some scheme =>
        rw [isScheme] at sameScheme
        exact congrArg some sameScheme
  apply text_ne_toString printable negative scheme _ isText
  intro authority isAuthority
  rw [Reference.host, Option.mem_def.mp isAuthority] at sameHost
  exact sameHost

end Negative

/-! ## The round trip -/

theorem kept_saved_iff {reference : Reference} :
    kept reference.saved.m_userinfo = reference.saved.m_userinfo ↔
      ∀ userinfo ∈ reference.userinfo, ∀ behind ∈ behindColon userinfo, behindColon behind = none := by
  show kept ((reference.userinfo.map kept).getD []) = (reference.userinfo.map kept).getD [] ↔ _
  cases reference.userinfo with
  | none => exact iff_of_true rfl nofun
  | some userinfo =>
      rw [Option.map_some, Option.getD_some, kept_eq_iff, kept]
      cases isBehind : behindColon userinfo with
      | none =>
          apply iff_of_true isBehind
          rintro _ ⟨⟩ behind isSome
          rw [isBehind] at isSome
          cases isSome
      | some behind =>
          constructor
          · rintro none _ ⟨⟩ other isOther
            rw [isBehind] at isOther
            cases isOther
            exact none
          · intro all
            exact all userinfo rfl behind isBehind

/-- A port is not negative. -/
theorem saved_port_nonneg_iff {reference : Reference} :
    0 ≤ reference.saved.m_port ↔ min reference.portNumber (2 ^ 63 - 1) % 2 ^ 32 < 2 ^ 31 := by
  have number : min (reference.portNumber : Int) (2 ^ 63 - 1) =
      (min reference.portNumber (2 ^ 63 - 1) : Nat) := by omega
  rw [reference.saved_port, number, toInt32, Int.bmod]
  split
  next => omega
  next => omega

/-- What `toString` writes of a reference with a scheme and an authority gives the same again
unless the port became negative, or digits stand behind two colons of the userinfo. -/
theorem toString_round_trip_iff {str : Bytes} {uri : Uri} (created : Create str = some (some uri))
    {reference : Reference} (isText : reference.text = str) (hasScheme : reference.scheme.isSome = true)
    (hasAuthority : reference.authority.isSome = true) :
    (∃ other, Create uri.toString = some (some other) ∧ Same uri other) ↔
      min reference.portNumber (2 ^ 63 - 1) % 2 ^ 32 < 2 ^ 31 ∧
        ∀ userinfo ∈ reference.userinfo, ∀ behind ∈ behindColon userinfo, behindColon behind = none := by
  obtain ⟨scheme, isScheme⟩ := Option.isSome_iff_exists.mp hasScheme
  obtain ⟨authority, isAuthority⟩ := Option.isSome_iff_exists.mp hasAuthority
  have printable := printable_saved isScheme isAuthority
  have small : reference.saved.m_port < 2 ^ 31 := by
    rw [reference.saved_port]
    exact toInt32_lt _
  rw [saved_of_Create created isText, ← saved_port_nonneg_iff, ← kept_saved_iff]
  constructor
  · rintro ⟨other, createdAgain, same⟩
    have notNegative : 0 ≤ reference.saved.m_port := by
      apply Int.not_lt.mp
      intro negative
      exact not_same_of_negative printable negative createdAgain same
    refine ⟨notNegative, ?_⟩
    rw [@Create_toString _ printable notNegative] at createdAgain
    cases createdAgain
    exact (same_iff notNegative small).mp same
  · rintro ⟨notNegative, stays⟩
    exact ⟨_, Create_toString notNegative, (@same_iff _ printable notNegative small).mpr stays⟩

theorem toString_round_trip_iff_port : ∃ reference : Reference,
    reference.text = ascii "http://user@host:8080/a?b#c" ∧
      ((∃ other, Create (toString
          ⟨ascii "http", ascii "user", ascii "host", ascii "/a", ascii "b", ascii "c", 8080⟩) =
            some (some other) ∧
          Same ⟨ascii "http", ascii "user", ascii "host", ascii "/a", ascii "b", ascii "c", 8080⟩ other) ↔
        min reference.portNumber (2 ^ 63 - 1) % 2 ^ 32 < 2 ^ 31 ∧
          ∀ userinfo ∈ reference.userinfo, ∀ behind ∈ behindColon userinfo,
            behindColon behind = none) := by
  have printable : Printable
      ⟨ascii "http", ascii "user", ascii "host", ascii "/a", ascii "b", ascii "c", 8080⟩ := by
    constructor <;> exact (final_walk (by decide +kernel) _).mp (by decide +kernel)
  have isText : (printed _ printable).text = ascii "http://user@host:8080/a?b#c" :=
    (text_printed (by decide)).trans (by decide +kernel)
  exact ⟨printed _ printable, isText, toString_round_trip_iff (by decide +kernel) isText rfl rfl⟩

/-- A port that does not fit is printed as a negative number, which is refused. -/
theorem toString_not_round_trip : ∃ uri,
    Create (ascii "http://h:4294967295/") = some (some uri) ∧
      (∃ reference : Reference, reference.text = ascii "http://h:4294967295/" ∧
        reference.scheme.isSome = true ∧ reference.authority.isSome = true) ∧
      ¬∃ other, Create uri.toString = some (some other) ∧ Same uri other := by
  have printable : Printable ⟨ascii "http", [], ascii "h", ascii "/", [], [], 4294967295⟩ := by
    constructor <;> exact (final_walk (by decide +kernel) _).mp (by decide +kernel)
  have isText : (printed _ printable).text = ascii "http://h:4294967295/" :=
    (text_printed (by decide)).trans (by decide +kernel)
  refine ⟨⟨ascii "http", [], ascii "h", ascii "/", [], [], -1⟩, by decide +kernel,
    ⟨printed _ printable, isText, rfl, rfl⟩, ?_⟩
  rintro ⟨other, created, -⟩
  have refused : Create (toString ⟨ascii "http", [], ascii "h", ascii "/", [], [], -1⟩) =
      some none := by
    decide +kernel
  rw [refused] at created
  cases created

end Exhy.Uri
