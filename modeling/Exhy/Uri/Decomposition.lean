import Exhy.Uri.Userinfo

/-!
# What `Create` makes of a reference

Each reference gives a result: the components that are saved on its way through the machine,
or an exception.
-/

namespace Exhy.Uri

open Library Machine Grammar

/-! ## The first byte -/

section First

variable {side : Side} {code : UInt8}

theorem taken_first : ∀ code, outline.takes code (.path .relative) = true →
    outline.taken code outline.first =
      (if outline.takes code .scheme then [(.scheme, [0])] else []) ++
        (if code = 0x2F then [(.slashes .relative, [])] else []) ++ [(.path .relative, [])] :=
  forall_byte (by decide +kernel)

theorem taken_first_tail : outline.taken 0x3F outline.first = [(.mark .relative, [])] ∧
    outline.taken 0x23 outline.first = [(.hash .relative, [])] := by
  decide +kernel

theorem taken_scheme_colon : outline.taken 0x3A (outline.follow .scheme) = [(.colon, [1])] := by
  decide +kernel

theorem taken_behind_colon : ∀ code, outline.takes code (.path .hier) = true →
    outline.taken code (outline.follow .colon) =
      (if code = 0x2F then [(.slashes .hier, [])] else []) ++ [(.path .hier, [])] :=
  forall_byte (by decide +kernel)

theorem takes_relative : ∀ code, outline.takes code .scheme = true →
    code ≠ 0x2F ∧ outline.takes code (.path .relative) = true :=
  forall_byte (by decide +kernel)

theorem takes_slash (side : Side) : outline.takes 0x2F (.path side) = true := by
  cases side <;> decide +kernel

end First

/-! ## Paths without an authority -/

section Bare

variable {side : Side} {text more rest : Bytes} {seen : Seen} {others : List (Kind × Bytes)}
  {tail : Tail} {result : Option Uri}

/-- What a path may be taken for as well. -/
def Shadow (side : Side) (text : Bytes) (others : List (Kind × Bytes)) : Prop :=
  ∀ entry ∈ others, entry.2 = text ∧
    (entry.1 = .slashes side ∨ entry.1 = .scheme ∧ side = .relative)

theorem Shadow.append (shadow : Shadow side text others) (more : Bytes) :
    Shadow side (text ++ more) (others.map fun entry => (entry.1, entry.2 ++ more)) := by
  intro entry isEntry
  obtain ⟨before, isBefore, rfl⟩ := List.mem_map.mp isEntry
  obtain ⟨isText, isKind⟩ := shadow before isBefore
  exact ⟨congrArg (· ++ more) isText, isKind⟩

/-- No path is taken for the slashes of an authority. -/
theorem not_slashes (member : text ++ more ∈ (outline.part (.path side)).language) :
    outline.stops (.slashes side, text) = false := by
  apply Bool.eq_false_iff.mpr
  intro stops
  apply Outline.residual_ne_nil member
  rw [mem_language_literal.mp (Outline.stops_eq.mp stops)]
  exact dead_path_slashes side

/-- What may be taken for something else is not left where the path goes on. -/
theorem Shadow.stay {code : UInt8} (shadow : Shadow side text others)
    (member : text ++ code :: more ∈ (outline.part (.path side)).language) :
    Yields.Stay code others := by
  rintro ⟨kind, _⟩ isEntry stops
  obtain ⟨isText, isKind⟩ := shadow _ isEntry
  cases isText
  rcases isKind with isSlashes | ⟨isScheme, rfl⟩
  · cases isSlashes
    rw [not_slashes member] at stops
    cases stops
  · cases isScheme
    apply taken_of_not_ends .scheme
    apply decide_eq_false
    rintro rfl
    have isExcluded : 0x2F ∈ excluded .scheme := by decide
    exact not_mem_of_excluded isExcluded (Outline.stops_eq.mp stops) (slash_before_colon member)

theorem Shadow.toOver (shadow : Shadow side text others)
    (member : text ∈ (outline.part (.path side)).language) : Yields.Over (ascii "?#") others := by
  have noSlashes : outline.stops (.slashes side, text) = false := by
    rw [← List.append_nil text] at member
    exact not_slashes member
  constructor
  · rintro code isCode ⟨kind, _⟩ isEntry stops
    obtain ⟨isText, isKind⟩ := shadow _ isEntry
    cases isText
    rcases isKind with isSlashes | ⟨isScheme, rfl⟩
    · cases isSlashes
      rw [noSlashes] at stops
      cases stops
    · cases isScheme
      apply taken_of_not_ends .scheme
      apply decide_eq_false
      rintro rfl
      revert isCode
      decide
  · rintro code isCode ⟨kind, _⟩ isEntry
    obtain ⟨-, isKind⟩ := shadow _ isEntry
    rcases isKind with isSlashes | ⟨isScheme, -⟩
    · cases isSlashes
      exact dead_of_excluded ((by decide : ∀ code ∈ ascii "?#", code ∈ ascii ":?#@") code isCode)
    · cases isScheme
      exact dead_of_excluded ((by decide : ∀ code ∈ ascii "?#", code ∈ ascii ":/?#@") code isCode)
  · rintro ⟨kind, _⟩ isEntry stops
    obtain ⟨isText, isKind⟩ := shadow _ isEntry
    cases isText
    rcases isKind with isSlashes | ⟨isScheme, -⟩
    · cases isSlashes
      rw [noSlashes] at stops
      cases stops
    · cases isScheme
      rfl

/-- A path without an authority is not saved. -/
theorem yields_bare (member : text ++ more ∈ (outline.part (.path side)).language)
    (shadow : Shadow side text others) :
    Yields ((.path side, text) :: others) seen (more ++ tail.text) (some (tail.save seen.uri)) := by
  apply Yields.inside
  · intro entry isEntry before code after same stops
    rcases List.mem_cons.mp isEntry with rfl | isOther
    · apply taken_of_not_ends (.path side)
      apply decide_eq_false
      intro isEnd
      apply not_mem_of_excluded (show code ∈ excluded (.path side) from isEnd) member
      simp [same]
    · have onward : text ++ before ++ code :: after ∈ (outline.part (.path side)).language := by
        rw [List.append_assoc, ← same]
        exact member
      have isMapped : (entry.1, entry.2 ++ before) ∈
          others.map fun entry => (entry.1, entry.2 ++ before) := List.mem_map_of_mem isOther
      exact (shadow.append before).stay onward (entry.1, entry.2 ++ before) isMapped stops
  · exact ⟨_, List.mem_cons_self, alive_of_mem member⟩
  · exact yields_tail tail rfl (Outline.stops_eq.mpr member) ((shadow.append more).toOver member)

/-- An authority behind the first slash, which may begin a path. -/
theorem yields_second_slash {path : Bytes} (authority : Authority)
    (isPath : path ∈ path_abempty.language) :
    Yields [(.slashes side, [0x2F]), (.path side, [0x2F])] seen
      (0x2F :: (authority.text ++ (path ++ tail.text)))
      (afterHost side { seen.uri with
        m_userinfo := (authority.userinfo.map kept).getD seen.uri.m_userinfo
        m_host := authority.host } authority.port path tail) := by
  have single : outline.stops (.slashes side, [0x2F]) = false :=
    Bool.eq_false_iff.mpr fun stops => by cases mem_language_literal.mp (Outline.stops_eq.mp stops)
  apply Yields.stay
  · intro entry isEntry stops
    rcases List.mem_cons.mp isEntry with rfl | isPath
    · rw [single] at stops
      cases stops
    · rw [List.mem_singleton.mp isPath]
      exact taken_of_not_ends (.path side) 0x2F rfl
  · exact ⟨(.slashes side, [0x2F]), by simp, alive_of_mem (mem_language_literal.mpr rfl)⟩
  · apply Yields.swap
    apply Yields.drop (dead_path_slashes side)
    exact yields_authority authority isPath

/-- What `Create` makes of a text from the first byte on. -/
theorem Create_cons {code : UInt8} {ways : List (Kind × List Nat)} {after : Seen}
    (areTaken : outline.taken code outline.first = ways) (some : ways ≠ [])
    (performed : ({} : Seen).performAll (code :: rest)
      (inOrder outline.action (ways.flatMap Prod.snd)) = Option.some after)
    (later : Yields (ways.map fun way => (way.1, [code])) (after.read [code]) rest result) :
    Create (code :: rest) = result.map Option.some := by
  obtain ⟨next, stepped, sees⟩ := (outline.offers_start).move areTaken (.inr some)
  rw [← run_nil_eq_Create]
  apply run_cons (Seen.of_unmarked [] {}) stepped
  · intro seen isSeen state isOf
    rw [Option.mem_def, performed] at isSeen
    cases isSeen
    exact later [code] state next (isOf.read [code]) sees
  · intro throws
    rw [performed] at throws
    cases throws

theorem shadow_nil (side : Side) (text : Bytes) : Shadow side text [] := nofun

theorem shadow_single {kind : Kind} (isKind : kind = .slashes side ∨ kind = .scheme ∧ side = .relative) :
    Shadow side text [(kind, text)] := by
  intro entry isEntry
  rw [List.mem_singleton.mp isEntry]
  exact ⟨rfl, isKind⟩

end Bare

/-! ## References -/

namespace Reference

variable (reference : Reference)

def tail : Tail where
  query := reference.query
  fragment := reference.fragment
  isQuery := reference.isQuery
  isFragment := reference.isFragment

/-- What is saved of what follows the scheme: the path only behind an authority. -/
def saveRest (uri : Uri) : Option Uri :=
  match reference.authority with
  | none => some (reference.tail.save uri)
  | some authority =>
      afterHost (sideOf reference.scheme) { uri with
        m_userinfo := (authority.userinfo.map kept).getD uri.m_userinfo
        m_host := authority.host } authority.port reference.path reference.tail

/-- What is made of a reference; none when it throws. -/
def result : Option Uri := reference.saveRest { m_scheme := reference.scheme.getD [] }

theorem rest_eq : reference.rest =
    authorityText reference.authority ++ (reference.path ++ reference.tail.text) := by
  simp [rest, tail, Tail.text]

end Reference

section References

variable {reference : Reference} {seen : Seen}

/-- What follows the colon of a scheme. -/
theorem yields_rest (isHier : sideOf reference.scheme = .hier) :
    Yields [(.colon, ascii ":")] seen reference.rest (reference.saveRest seen.uri) := by
  have isPath := reference.isPath
  rw [Reference.rest_eq, Reference.saveRest, isHier]
  rw [isHier] at isPath
  cases isAuthority : reference.authority with
  | some authority =>
      rw [isAuthority] at isPath
      have areTaken := taken_behind_colon 0x2F (takes_slash .hier)
      rw [if_pos rfl] at areTaken
      apply Yields.branch (stops_of_word rfl) areTaken (List.cons_ne_nil _ _) (dead_of_word rfl _)
        (Yields.stay_nil _)
      · rfl
      · exact yields_second_slash authority isPath
  | none =>
      rw [isAuthority] at isPath
      generalize reference.path = path at isPath ⊢
      cases path with
      | nil => exact yields_tail reference.tail rfl (stops_of_word rfl) (Yields.over_nil _)
      | cons code more =>
          have areTaken := taken_behind_colon code (takes_of_mem isPath)
          by_cases isSlash : code = 0x2F
          · rw [if_pos isSlash] at areTaken
            apply Yields.branch (stops_of_word rfl) areTaken (List.cons_ne_nil _ _)
              (dead_of_word rfl code) (Yields.stay_nil code)
            · rfl
            · apply Yields.swap
              exact yields_bare isPath (shadow_single (.inl rfl))
          · rw [if_neg isSlash] at areTaken
            apply Yields.onward (stops_of_word rfl) areTaken (dead_of_word rfl code)
              (Yields.stay_nil code)
            · rfl
            · exact yields_bare isPath (shadow_nil .hier [code])

/-- A path from the first byte of the text on. -/
theorem Create_path {code : UInt8} {more : Bytes} {tail : Tail}
    (member : code :: more ∈ (outline.part (.path .relative)).language) :
    Create (code :: (more ++ tail.text)) = Option.map some (some (tail.save {})) := by
  have areTaken := taken_first code (takes_of_mem member)
  cases isScheme : outline.takes code .scheme with
  | true =>
      rw [isScheme, if_pos rfl, if_neg (takes_relative code isScheme).1] at areTaken
      apply Create_cons areTaken (List.cons_ne_nil _ _)
      · rfl
      · apply Yields.swap
        exact yields_bare member (shadow_single (.inr ⟨rfl, rfl⟩))
  | false =>
      rw [isScheme, if_neg Bool.false_ne_true] at areTaken
      by_cases isSlash : code = 0x2F
      · rw [if_pos isSlash] at areTaken
        apply Create_cons areTaken (List.cons_ne_nil _ _)
        · rfl
        · apply Yields.swap
          exact yields_bare member (shadow_single (.inl rfl))
      · rw [if_neg isSlash] at areTaken
        apply Create_cons areTaken (List.cons_ne_nil _ _)
        · rfl
        · exact yields_bare member (shadow_nil .relative [code])

/-- A query and a fragment alone. -/
theorem Create_tail (tail : Tail) :
    Create tail.text = Option.map some (some (tail.save {})) := by
  obtain ⟨query, fragment, isQuery, isFragment⟩ := tail
  cases query with
  | some text =>
      apply Create_cons taken_first_tail.1 (List.cons_ne_nil _ _)
      · rfl
      · exact yields_mark (isQuery text rfl) isFragment
  | none =>
      cases fragment with
      | some text =>
          apply Create_cons taken_first_tail.2 (List.cons_ne_nil _ _)
          · rfl
          · exact yields_hash (isFragment text rfl)
      | none =>
          show Create [] = some (some {})
          decide +kernel

/-- A reference without a scheme. -/
theorem Create_relative (isRelative : reference.scheme = none) :
    Create reference.rest = (reference.saveRest {}).map some := by
  have isPath := reference.isPath
  rw [Reference.rest_eq, Reference.saveRest, isRelative]
  rw [isRelative] at isPath
  cases isAuthority : reference.authority with
  | some authority =>
      rw [isAuthority] at isPath
      have areTaken := taken_first 0x2F (takes_slash .relative)
      have noScheme : outline.takes 0x2F .scheme = false := by decide +kernel
      rw [noScheme, if_pos rfl] at areTaken
      apply Create_cons areTaken (List.cons_ne_nil _ _)
      · rfl
      · exact yields_second_slash authority isPath
  | none =>
      rw [isAuthority] at isPath
      generalize reference.path = path at isPath ⊢
      cases path with
      | nil => exact Create_tail reference.tail
      | cons code more => exact Create_path isPath

/-- No relative path goes on with a colon behind a scheme. -/
theorem dead_scheme_colon {text : Bytes} (member : text ∈ (outline.part .scheme).language) :
    outline.residual (.path .relative, text ++ [0x3A]) = [] := by
  apply dead_of_not_mem
  intro more longer
  exact not_mem_of_excluded (by decide : 0x2F ∈ excluded .scheme) member (slash_before_colon longer)

/-- A reference with a scheme. -/
theorem Create_scheme {scheme : Bytes} (isScheme : reference.scheme = some scheme) :
    Create (scheme ++ 0x3A :: reference.rest) =
      (reference.saveRest { m_scheme := scheme }).map some := by
  have member := reference.isScheme scheme isScheme
  cases scheme with
  | nil => cases isSome_exit.mpr member
  | cons code more =>
      have takes : outline.takes code .scheme = true :=
        @takes_of_mem .scheme more code member
      obtain ⟨noSlash, isPath⟩ := takes_relative code takes
      have areTaken := taken_first code isPath
      rw [takes, if_pos rfl, if_neg noSlash] at areTaken
      apply Create_cons areTaken (List.cons_ne_nil _ _)
      · rfl
      · apply @Yields.within _ _ _ .scheme _ [code] more member
        · intro entry isEntry other isEnd
          rcases List.mem_cons.mp isEntry with rfl | isOther
          · rw [of_decide_eq_true isEnd]
            decide
          · rw [List.mem_singleton.mp isOther] at isEnd
            exact (by decide : ∀ code ∈ ascii "?#", code ∈ ascii ":/?#@") other (of_decide_eq_true isEnd)
        · apply Yields.onward (Outline.stops_eq.mpr member) taken_scheme_colon
            (dead_of_excluded (by decide : 0x3A ∈ ascii ":/?#@"))
          · intro entry isEntry _
            obtain ⟨before, isBefore, rfl⟩ := List.mem_map.mp isEntry
            rw [List.mem_singleton.mp isBefore]
            exact taken_of_not_ends (.path .relative) 0x3A rfl
          · rfl
          · apply Yields.swap
            apply Yields.drop (dead_scheme_colon member)
            exact yields_rest (congrArg sideOf isScheme)

/-- What `Create` makes of the text of a reference. -/
theorem Create_text (reference : Reference) :
    Create reference.text = reference.result.map some := by
  cases isScheme : reference.scheme with
  | none =>
      rw [Reference.text, Reference.result, isScheme]
      exact Create_relative isScheme
  | some scheme =>
      rw [Reference.text, Reference.result, isScheme, before, List.append_assoc]
      exact Create_scheme isScheme

/-- What `Create` accepts is the text of a reference. -/
theorem exists_reference {str : Bytes} {uri : Uri} (created : Create str = some (some uri)) :
    ∃ reference : Reference, reference.text = str := by
  rw [← mem_language_main, ← final_walk (by decide +kernel : main.unguarded = true)]
  obtain ⟨⟨state, cs⟩, ran, accepted⟩ := Option.map_eq_some_iff.mp created
  rw [exec] at ran
  split at ran
  next => cases ran
  next after last stop executed =>
    obtain ⟨done, -, same⟩ := Option.map_eq_some_iff.mp ran
    cases same
    rw [← exec_eq_walk (fun _ => rfl) executed]
    by_contra notFinal
    dsimp only at accepted
    rw [if_neg notFinal] at accepted
    cases accepted

end References

/-! ## What is saved -/

namespace Reference

variable (reference : Reference)

def userinfo : Option Bytes := reference.authority.bind Authority.userinfo

def host : Option Bytes := reference.authority.map Authority.host

def port : Option Bytes := reference.authority.bind Authority.port

/-- Whether the path is saved. -/
def savesPath : Bool := reference.scheme.isSome && reference.authority.isSome

/-- The components that `Create` saves. -/
def saved : Uri where
  m_scheme := reference.scheme.getD []
  m_userinfo := (reference.userinfo.map kept).getD []
  m_host := reference.host.getD []
  m_path := if reference.savesPath then reference.path else []
  m_query := reference.query.getD []
  m_fragment := reference.fragment.getD []
  m_port := (reference.port.map atoi).getD 0

theorem withPort_eq {uri : Uri} (noPort : uri.m_port = 0) (port : Option Bytes) :
    withPort uri port = { uri with m_port := (port.map atoi).getD 0 } := by
  cases port with
  | none =>
      rw [withPort, Option.map_none, Option.getD_none, ← noPort]
  | some digits =>
      cases digits with
      | nil =>
          have nothing : atoi [] = 0 := by decide +kernel
          rw [withPort, Option.map_some, Option.getD_some, nothing, ← noPort]
      | cons digit later => rfl

/-- An empty port behind a scheme is the only reference that makes `Create` throw. -/
theorem result_eq : reference.result =
    if reference.scheme.isSome ∧ reference.port = some [] then none else some reference.saved := by
  obtain ⟨scheme, authority, path, query, fragment, isScheme, isPath, isQuery, isFragment⟩ := reference
  cases authority with
  | none =>
      rw [if_neg (fun both => nomatch both.2)]
      cases scheme <;> rfl
  | some authority =>
      obtain ⟨userinfo, host, port, isUserinfo, isHost, isPort⟩ := authority
      cases scheme with
      | none =>
          rw [if_neg (fun both => nomatch both.1)]
          dsimp only [result, saveRest]
          rw [afterHost, withPort_eq rfl]
          rfl
      | some scheme =>
          dsimp only [result, saveRest]
          rw [afterHost, withPort_eq rfl]
          cases port with
          | none => rfl
          | some digits =>
              cases digits with
              | nil => rfl
              | cons digit later => rfl

end Reference

end Exhy.Uri
