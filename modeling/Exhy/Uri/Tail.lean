import Exhy.Uri.Parts

/-!
# The end of a reference

What comes of a path, a query and a fragment.  A run is followed over the parts that it may be
in: each of them goes on inside itself, or is left for the next one.
-/

namespace Exhy.Uri

open Library Machine Grammar

/-- What comes of the rest of a text, where the run may be in those parts behind those texts. -/
def Yields (state : List (Kind × Bytes)) (seen : Seen) (rest : Bytes) (result : Option Uri) : Prop :=
  ∀ done parsing cs, seen.Of done parsing → outline.Sees state cs →
    run done rest cs parsing = result.map some

namespace Yields

variable {state other : List (Kind × Bytes)} {seen : Seen} {code : UInt8} {rest text : Bytes}
  {result : Option Uri}

/-- A byte, on which those ways are taken. -/
theorem move {ways : List (Kind × List Nat)} {result : Seen → Option Uri}
    (areTaken : outline.taken code (outline.ready state) = ways)
    (alive : (∃ entry ∈ state, outline.residual (entry.1, entry.2 ++ [code]) ≠ []) ∨ ways ≠ [])
    (later : ∀ after ∈ seen.performAll (code :: rest) (inOrder outline.action (ways.flatMap Prod.snd)),
      Yields (Outline.advance ways code state) (after.read [code]) rest (result after)) :
    Yields state seen (code :: rest)
      ((seen.performAll (code :: rest) (inOrder outline.action (ways.flatMap Prod.snd))).bind result) := by
  intro done parsing cs isOf sees
  obtain ⟨next, stepped, seesNext⟩ := sees.offers.move areTaken alive
  apply run_cons isOf stepped
  · intro after performed parsing isAfter
    rw [Option.mem_def.mp performed]
    exact later after performed _ parsing next (isAfter.read [code]) seesNext
  · intro throws
    rw [throws]
    rfl

/-- Parts in which nothing can go on may be left out. -/
theorem congr (same : ∀ entry, outline.residual entry ≠ [] → (entry ∈ state ↔ entry ∈ other))
    (yields : Yields other seen rest result) : Yields state seen rest result :=
  fun done parsing cs isOf sees => yields done parsing cs isOf (sees.congr same)

theorem swap {first second : Kind × Bytes} (yields : Yields [second, first] seen rest result) :
    Yields [first, second] seen rest result :=
  congr (fun _ _ => (List.Perm.swap second first []).mem_iff) yields

theorem drop {entry : Kind × Bytes} (dead : outline.residual entry = [])
    (yields : Yields state seen rest result) : Yields (entry :: state) seen rest result := by
  apply congr _ yields
  intro other isAlive
  rw [List.mem_cons]
  apply or_iff_right
  rintro rfl
  exact isAlive dead

/-- A byte inside the parts. -/
theorem stay
    (untaken : ∀ entry ∈ state, outline.stops entry = true →
      outline.taken code (outline.follow entry.1) = [])
    (alive : ∃ entry ∈ state, outline.residual (entry.1, entry.2 ++ [code]) ≠ [])
    (later : Yields (state.map fun entry => (entry.1, entry.2 ++ [code])) (seen.read [code]) rest result) :
    Yields state seen (code :: rest) result := by
  have nothing : outline.taken code (outline.ready state) = [] := by
    rw [Outline.taken_ready, List.flatMap_eq_nil_iff]
    intro entry isEntry
    split
    next stops => exact untaken entry isEntry stops
    next => rfl
  apply move nothing (.inl alive)
  rintro after ⟨⟩
  rw [Outline.advance, List.map_nil, List.append_nil]
  exact later

/-- A text inside the parts. -/
theorem inside
    (untaken : ∀ entry ∈ state, ∀ before code after, text = before ++ code :: after →
      outline.stops (entry.1, entry.2 ++ before) = true →
        outline.taken code (outline.follow entry.1) = [])
    (alive : ∃ entry ∈ state, outline.residual (entry.1, entry.2 ++ text) ≠ [])
    (later : Yields (state.map fun entry => (entry.1, entry.2 ++ text)) (seen.read text) rest result) :
    Yields state seen (text ++ rest) result := by
  induction text generalizing state seen with
  | nil => simpa [Seen.read] using later
  | cons code more ih =>
      obtain ⟨entry, isEntry, isAlive⟩ := alive
      apply stay
      · intro entry isEntry stops
        exact untaken entry isEntry [] code more rfl (by simpa using stops)
      · refine ⟨entry, isEntry, fun dead => isAlive ?_⟩
        have onward := Outline.residual_append_of_nil dead more
        rwa [List.append_assoc] at onward
      · apply ih
        · rw [List.forall_mem_map]
          intro entry isEntry before code after same stops
          rw [List.append_assoc] at stops
          exact untaken entry isEntry (_ :: before) code after (congrArg _ same) stops
        · exact ⟨_, List.mem_map_of_mem isEntry, by simpa using isAlive⟩
        · simpa [Seen.read, Function.comp_def] using later

/-- A text of one part, in which no byte ends a part. -/
theorem within {kind : Kind} {others : List (Kind × Bytes)} {text more : Bytes}
    (member : text ++ more ∈ (outline.part kind).language)
    (closed : ∀ entry ∈ (kind, text) :: others, ∀ code, ends code entry.1 = true →
      code ∈ excluded kind)
    (later : Yields ((kind, text ++ more) :: others.map fun entry => (entry.1, entry.2 ++ more))
      (seen.read more) rest result) :
    Yields ((kind, text) :: others) seen (more ++ rest) result := by
  apply inside
  · intro entry isEntry before code after same _
    apply taken_of_not_ends
    apply Bool.eq_false_iff.mpr
    intro isEnd
    apply not_mem_of_excluded (closed entry isEntry code isEnd) member
    simp [same]
  · exact ⟨_, List.mem_cons_self, alive_of_mem member⟩
  · exact later

/-- The end of the text. -/
theorem finish
    (final : ∃ entry ∈ state, outline.stops entry = true ∧ (outline.last entry.1).isSome = true) :
    Yields state seen []
      ((seen.performAll [] (inOrder outline.action (outline.endings state))).map Seen.uri) := by
  intro done parsing cs isOf sees
  rw [run, Machine.exec, Option.bind_some]
  dsimp only
  rw [sees.atEnd, sees.final.mpr final]
  have performed := isOf.performAll [] (inOrder outline.action (outline.endings state))
  generalize seen.performAll [] (inOrder outline.action (outline.endings state)) = mine at performed ⊢
  generalize Machine.perform (Parsing.perform (done ++ [])) (fun _ => false) done.length
    (inOrder outline.action (outline.endings state)) parsing = theirs at performed ⊢
  cases performed with
  | none => rfl
  | some both =>
    rw [Option.map_some, Option.map_some, Option.map_some, if_pos rfl, both.1.uri]

/-! ## Leaving a part -/

/-- Parts that are not left for others on the byte. -/
def Stay (code : UInt8) (others : List (Kind × Bytes)) : Prop :=
  ∀ entry ∈ others, outline.stops entry = true → outline.taken code (outline.follow entry.1) = []

theorem stay_nil (code : UInt8) : Stay code [] := nofun

/-- Nothing comes of those parts once one of the bytes or the end of the text is there. -/
structure Over (codes : Bytes) (others : List (Kind × Bytes)) : Prop where
  stay : ∀ code ∈ codes, Stay code others
  dead : ∀ code ∈ codes, ∀ entry ∈ others, outline.residual (entry.1, entry.2 ++ [code]) = []
  mute : ∀ entry ∈ others, outline.stops entry = true → outline.last entry.1 = none

theorem over_nil (codes : Bytes) : Over codes [] :=
  ⟨fun _ _ => nofun, fun _ _ => nofun, nofun⟩

theorem Over.mono {codes fewer : Bytes} {others : List (Kind × Bytes)} (ended : Over codes others)
    (within : ∀ code ∈ fewer, code ∈ codes) : Over fewer others :=
  ⟨fun code isCode => ended.stay code (within code isCode),
    fun code isCode => ended.dead code (within code isCode), ended.mute⟩

variable {entry : Kind × Bytes} {others : List (Kind × Bytes)} {kind : Kind} {numbers : List Nat}

/-- A byte on which one part is left, and the others go on. -/
theorem fork {ways : List (Kind × List Nat)} {result : Seen → Option Uri}
    (stops : outline.stops entry = true)
    (areTaken : outline.taken code (outline.follow entry.1) = ways) (some : ways ≠ [])
    (dead : outline.residual (entry.1, entry.2 ++ [code]) = []) (stay : Stay code others)
    (later : ∀ after ∈ seen.performAll (code :: rest) (inOrder outline.action (ways.flatMap Prod.snd)),
      Yields (ways.map (fun way => (way.1, [code])) ++
        others.map fun entry => (entry.1, entry.2 ++ [code])) (after.read [code]) rest (result after)) :
    Yields (entry :: others) seen (code :: rest)
      ((seen.performAll (code :: rest) (inOrder outline.action (ways.flatMap Prod.snd))).bind result) := by
  have areReady : outline.taken code (outline.ready (entry :: others)) = ways := by
    rw [Outline.taken_ready, List.flatMap_cons, if_pos stops, areTaken]
    apply List.append_right_eq_self.mpr
    rw [List.flatMap_eq_nil_iff]
    intro other isOther
    split
    next stops => exact stay other isOther stops
    next => rfl
  apply move areReady (.inr some)
  intro after isAfter
  apply congr _ (later after isAfter)
  intro other isAlive
  rw [Outline.advance, List.mem_append, List.map_cons, List.mem_cons, List.mem_append, or_comm]
  apply or_congr_right
  apply or_iff_right
  rintro rfl
  exact isAlive dead

/-- A byte on which one part is left, where what is performed is known. -/
theorem branch {ways : List (Kind × List Nat)} {result : Option Uri} {after : Seen}
    (stops : outline.stops entry = true)
    (areTaken : outline.taken code (outline.follow entry.1) = ways) (some : ways ≠ [])
    (dead : outline.residual (entry.1, entry.2 ++ [code]) = []) (stay : Stay code others)
    (performed : seen.performAll (code :: rest) (inOrder outline.action (ways.flatMap Prod.snd)) =
      Option.some after)
    (later : Yields (ways.map (fun way => (way.1, [code])) ++
      others.map fun entry => (entry.1, entry.2 ++ [code])) (after.read [code]) rest result) :
    Yields (entry :: others) seen (code :: rest) result := by
  have forked := @fork seen code rest entry others ways (fun _ => result) stops areTaken some dead stay
  rw [performed] at forked
  apply forked
  rintro _ ⟨⟩
  exact later

theorem onward {result : Option Uri} {after : Seen} (stops : outline.stops entry = true)
    (areTaken : outline.taken code (outline.follow entry.1) = [(kind, numbers)])
    (dead : outline.residual (entry.1, entry.2 ++ [code]) = []) (stay : Stay code others)
    (performed : seen.performAll (code :: rest) (inOrder outline.action numbers) = some after)
    (later : Yields ((kind, [code]) :: others.map fun entry => (entry.1, entry.2 ++ [code]))
      (after.read [code]) rest result) :
    Yields (entry :: others) seen (code :: rest) result := by
  apply branch stops areTaken (List.cons_ne_nil _ _) dead stay _ later
  rw [List.flatMap_singleton]
  exact performed

/-- A byte on which one part is left for another, and the others end. -/
theorem leave {result : Seen → Option Uri} {codes : Bytes} (stops : outline.stops entry = true)
    (areTaken : outline.taken code (outline.follow entry.1) = [(kind, numbers)])
    (dead : outline.residual (entry.1, entry.2 ++ [code]) = []) (ended : Over codes others)
    (isCode : code ∈ codes)
    (later : ∀ after ∈ seen.performAll (code :: rest) (inOrder outline.action numbers),
      Yields [(kind, [code])] (after.read [code]) rest (result after)) :
    Yields (entry :: others) seen (code :: rest)
      ((seen.performAll (code :: rest) (inOrder outline.action numbers)).bind result) := by
  have forked := @fork seen code rest entry others _ result stops areTaken (List.cons_ne_nil _ _) dead
    (ended.stay code isCode)
  rw [List.flatMap_singleton] at forked
  apply forked
  intro after isAfter
  apply congr _ (later after isAfter)
  intro other isAlive
  apply List.mem_append.trans
  apply or_iff_left
  rw [List.mem_map]
  rintro ⟨before, isBefore, rfl⟩
  exact isAlive (ended.dead code isCode before isBefore)

/-- The end of the text in one part. -/
theorem last {codes : Bytes} (stops : outline.stops entry = true)
    (isLast : outline.last entry.1 = some numbers) (ended : Over codes others) :
    Yields (entry :: others) seen []
      ((seen.performAll [] (inOrder outline.action numbers)).map Seen.uri) := by
  have endings : outline.endings (entry :: others) = numbers := by
    rw [Outline.endings, List.flatMap_cons, if_pos stops, isLast]
    apply List.append_right_eq_self.mpr
    rw [List.flatMap_eq_nil_iff]
    intro other isOther
    split
    next stops => rw [ended.mute other isOther stops, Option.getD_none]
    next => rfl
  rw [← endings]
  exact finish ⟨entry, List.mem_cons_self, stops, by rw [isLast, Option.isSome_some]⟩

end Yields

/-! ## Queries and fragments -/

/-- A query and a fragment, as far as they are there. -/
structure Tail where
  query : Option Bytes
  fragment : Option Bytes
  isQuery : ∀ text ∈ query, text ∈ pchars.language
  isFragment : ∀ text ∈ fragment, text ∈ pchars.language

namespace Tail

def text (tail : Tail) : Bytes := behind 0x3F tail.query ++ behind 0x23 tail.fragment

/-- What is saved of them. -/
def save (tail : Tail) (uri : Uri) : Uri :=
  { uri with m_query := tail.query.getD uri.m_query, m_fragment := tail.fragment.getD uri.m_fragment }

end Tail

section Tail

variable {side : Side} {text more path : Bytes} {uri : Uri} {seen : Seen} {fragment : Option Bytes}
  {entry : Kind × Bytes} {others : List (Kind × Bytes)} {codes : Bytes}

theorem yields_fragment (member : text ++ more ∈ (outline.part (.fragment side)).language) :
    Yields [(.fragment side, text)] ⟨uri, some text⟩ more
      (some { uri with m_fragment := text ++ more }) := by
  rw [← List.append_nil more]
  apply Yields.within member
  · intro entry isEntry code isEnd
    rw [List.mem_singleton.mp isEntry] at isEnd
    cases isEnd
  · have ended : Yields [(.fragment side, text ++ more)] ⟨uri, some (text ++ more)⟩ [] _ :=
      Yields.last (Outline.stops_eq.mpr member) rfl (Yields.over_nil [])
    rw [List.append_nil]
    cases side <;> exact ended

theorem yields_hash (member : text ∈ (outline.part (.fragment side)).language) :
    Yields [(.hash side, ascii "#")] seen text (some { seen.uri with m_fragment := text }) := by
  have stops : outline.stops (.hash side, ascii "#") = true :=
    Outline.stops_eq.mpr (mem_language_literal.mpr rfl)
  cases text with
  | nil =>
      have ended : Yields [(.hash side, ascii "#")] seen [] _ :=
        Yields.last stops rfl (Yields.over_nil [])
      cases side <;> exact ended
  | cons code more =>
      apply Yields.onward stops ((tailWays side).taken_fragment code (takes_of_mem member))
        (dead_of_word rfl code)
        (Yields.stay_nil code)
      · show _ = some (⟨seen.uri, some []⟩ : Seen)
        cases side <;> rfl
      · exact yields_fragment member

/-- The fragment behind a part. -/
theorem yields_behind_hash (isSide : hashOf entry.1 = some side) (stops : outline.stops entry = true)
    (ended : Yields.Over codes others) (isCode : 0x23 ∈ codes)
    (isFragment : ∀ text ∈ fragment, text ∈ pchars.language) :
    Yields (entry :: others) seen (behind 0x23 fragment)
      ((seen.performAll (behind 0x23 fragment)
          (inOrder outline.action ((outline.last entry.1).getD []))).map fun after =>
        { after.uri with m_fragment := fragment.getD after.uri.m_fragment }) := by
  obtain ⟨isExcluded, areTaken⟩ := taken_hash isSide
  cases fragment with
  | none =>
      obtain ⟨numbers, isLast⟩ := Option.isSome_iff_exists.mp (last_of_hashOf isSide)
      rw [isLast]
      exact Yields.last stops isLast ended
  | some text =>
      rw [Option.map_eq_bind]
      apply Yields.leave stops areTaken (dead_of_excluded isExcluded) ended isCode
      intro after isAfter
      exact yields_hash (isFragment text rfl)

theorem yields_query (member : text ++ more ∈ (outline.part (.query side)).language)
    (isFragment : ∀ text ∈ fragment, text ∈ pchars.language) :
    Yields [(.query side, text)] ⟨uri, some text⟩ (more ++ behind 0x23 fragment)
      (some { uri with
        m_query := text ++ more, m_fragment := fragment.getD uri.m_fragment }) := by
  apply Yields.within member
  · intro entry isEntry code isEnd
    rw [List.mem_singleton.mp isEntry] at isEnd
    rw [of_decide_eq_true isEnd]
    exact List.mem_cons_self
  · have onward : Yields [(.query side, text ++ more)] ⟨uri, some (text ++ more)⟩ _ _ :=
      yields_behind_hash rfl (Outline.stops_eq.mpr member) (Yields.over_nil _)
        (List.mem_singleton_self _) isFragment
    cases side <;> exact onward

theorem yields_mark (member : text ∈ (outline.part (.query side)).language)
    (isFragment : ∀ text ∈ fragment, text ∈ pchars.language) :
    Yields [(.mark side, ascii "?")] seen (text ++ behind 0x23 fragment)
      (some { seen.uri with
        m_query := text, m_fragment := fragment.getD seen.uri.m_fragment }) := by
  have stops : outline.stops (.mark side, ascii "?") = true :=
    Outline.stops_eq.mpr (mem_language_literal.mpr rfl)
  cases text with
  | nil =>
      have onward : Yields [(.mark side, ascii "?")] seen (behind 0x23 fragment) _ :=
        yields_behind_hash rfl stops (Yields.over_nil _) (List.mem_singleton_self _) isFragment
      cases side <;> exact onward
  | cons code more =>
      apply Yields.onward stops ((tailWays side).taken_query code (takes_of_mem member))
        (dead_of_word rfl code)
        (Yields.stay_nil code)
      · show _ = some (⟨seen.uri, some []⟩ : Seen)
        cases side <;> rfl
      · exact yields_query member isFragment

theorem yields_tail (tail : Tail) (isSide : markOf entry.1 = some side)
    (stops : outline.stops entry = true) (ended : Yields.Over (ascii "?#") others) :
    Yields (entry :: others) seen tail.text
      ((seen.performAll tail.text
          (inOrder outline.action ((outline.last entry.1).getD []))).map fun after =>
        tail.save after.uri) := by
  obtain ⟨query, fragment, isQuery, isFragment⟩ := tail
  cases query with
  | none =>
      exact yields_behind_hash (hashOf_of_markOf isSide) stops ended (by decide) isFragment
  | some text =>
      obtain ⟨isExcluded, areTaken⟩ := taken_mark isSide
      rw [Option.map_eq_bind]
      apply Yields.leave stops areTaken (dead_of_excluded isExcluded) ended (by decide)
      intro after isAfter
      exact yields_mark (isQuery text rfl) isFragment

/-! ## Paths behind an authority -/

theorem yields_segments (tail : Tail)
    (member : text ++ more ∈ (outline.part (.segments side)).language) :
    Yields [(.segments side, text)] seen (more ++ tail.text)
      (((seen.read more).performAll tail.text
          (inOrder outline.action (Outline.leavesPath side))).map fun after =>
        tail.save after.uri) := by
  apply Yields.within member
  · intro entry isEntry code isEnd
    rw [List.mem_singleton.mp isEntry] at isEnd
    exact of_decide_eq_true isEnd
  · exact yields_tail tail rfl (Outline.stops_eq.mpr member) (Yields.over_nil _)

/-- The path behind an authority. -/
theorem yields_path (tail : Tail) {numbers : List Nat} (isPath : pathOf entry.1 = some (side, numbers))
    (stops : outline.stops entry = true) (ended : Yields.Over (ascii "/?#") others)
    (member : path ∈ (outline.part (.segments side)).language) :
    Yields (entry :: others) seen (path ++ tail.text)
      ((seen.performAll (path ++ tail.text)
          (inOrder outline.action (numbers ++ Outline.entersPath side))).bind fun entered =>
        ((entered.read path).performAll tail.text
            (inOrder outline.action (Outline.leavesPath side))).map fun after =>
          tail.save after.uri) := by
  obtain ⟨areTaken, isLast, split⟩ := taken_slash isPath
  cases path with
  | nil =>
      have onward := @yields_tail side seen entry others tail (markOf_of_pathOf isPath) stops
        (ended.mono (by decide))
      rw [isLast, split, Seen.performAll_append, Option.map_bind] at onward
      simpa only [List.nil_append, Seen.read_nil, Function.comp_def] using onward
  | cons code more =>
      obtain rfl := slash_of_mem_part member
      apply Yields.leave stops areTaken (dead_of_pathOf isPath stops) ended (by decide)
      intro after isAfter
      have onward := @yields_segments side [0x2F] more (after.read [0x2F]) tail member
      rwa [Seen.read_read] at onward

end Tail

end Exhy.Uri
