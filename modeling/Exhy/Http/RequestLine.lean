import Exhy.Http.HttpRequestParser
import Exhy.Library.Surroundings

/-!
# The line of a request

What the machine of the requests performs on a request line.  A path, a query and a fragment
are read by parts of the machine without actions; their frames are the rules around them, with
the numbers of their actions in `main`.
-/

namespace Exhy.Http.RequestLine

open Library Machine Http11

/-! ## Parts and frames -/

section Frames

variable (uri_relaxed : Bool)

/-- `pchar`, `/` and `?`, of queries and fragments. -/
def queryPart : Machine Action :=
  star (choice [Grammar.pchar uri_relaxed, literal "/", literal "?"])

/-- Behind the target of a request. -/
def lineFrames : List (Frame Action) :=
  [.ending 32 .done ((seq (star Grammar.message_header) Grammar.CRLF).number 18).1 rfl,
    .before ((sequence [literal " ", Grammar.HTTP_Version, Grammar.CRLF]).number 16).1]

/-- Behind the query. -/
def fragmentRule : Frame Action :=
  .before ((opt (seq (literal "#") (Grammar.fragment uri_relaxed))).number 14).1

/-- Behind the path. -/
def queryRule : Frame Action :=
  .before ((opt (seq ((literal "?").leave .start_query) (Grammar.query uri_relaxed))).number 11).1

def pathFrames : List (Frame Action) :=
  lineFrames ++ [fragmentRule uri_relaxed, .leaving 13 .request_uri, queryRule uri_relaxed,
    .leaving 10 .request_path]

def queryFrames : List (Frame Action) :=
  lineFrames ++ [fragmentRule uri_relaxed, .leaving 13 .request_uri, .leaving 12 .query_string]

def fragmentFrames : List (Frame Action) := lineFrames ++ [.leaving 15 .fragment]

/-! ## States -/

/-- Behind a method and its blank. -/
def targetState : List (Machine Action) := walk [Grammar.main uri_relaxed] (ascii "G ")

/-- In what may be a scheme or the beginning of a path. -/
def schemeState : List (Machine Action) := walk [Grammar.main uri_relaxed] (ascii "G a")

/-- Behind `?`. -/
def queryState : List (Machine Action) := walk [Grammar.main uri_relaxed] (ascii "G ?")

/-- Behind `#`. -/
def fragmentState : List (Machine Action) := walk [Grammar.main uri_relaxed] (ascii "G #")

end Frames

/-- Behind the target and its blank. -/
def versionState : List (Machine Action) := walk [Grammar.main false] (ascii "G  ")

/-- The bytes of a scheme. -/
def schemeBytes : List (UInt8 × UInt8) := Grammar.alpha ++ Grammar.digit ++ chars "+-."

/-- On every byte that begins a text of the part, the state goes on with the part in its frames. -/
def enters (cs : List (Machine Action)) (part : Machine Action) (frames : List (Frame Action))
    (action : Action) (code : UInt8) : Prop :=
  ∀ after ∈ (step [part] code).map Prod.fst, step cs code = some (after.map (plug frames), [action])

instance (cs : List (Machine Action)) (part : Machine Action) (frames : List (Frame Action))
    (action : Action) (code : UInt8) : Decidable (enters cs part frames action code) :=
  inferInstanceAs (Decidable (∀ after ∈ (step [part] code).map Prod.fst, _))

/-- What is entered on the bounds of what comes first is entered on every byte. -/
theorem enters_of_bounds {cs : List (Machine Action)} {part : Machine Action}
    {frames : List (Frame Action)} {action : Action} {ranges : List (UInt8 × UInt8)}
    (known : ∀ code ∈ bounds (ranges :: (part :: cs).flatMap firsts),
      inRanges ranges code = false → enters cs part frames action code) :
    ∀ code, inRanges ranges code = false → enters cs part frames action code := by
  apply forall_of_bounds _ known
  intro one other alike entered outside
  have same := alike ranges List.mem_cons_self
  have steps : step [part] one = step [part] other ∧ step cs one = step cs other := by
    constructor
    · apply step_congr
      intro ranges isFirst
      apply alike
      rw [List.flatMap_cons]
      rw [List.flatMap_singleton] at isFirst
      exact List.mem_cons_of_mem _ (List.mem_append_left _ isFirst)
    · apply step_congr
      intro ranges isFirst
      apply alike
      rw [List.flatMap_cons]
      exact List.mem_cons_of_mem _ (List.mem_append_right _ isFirst)
  rw [enters, ← steps.1, ← steps.2]
  exact entered (same.trans outside)

theorem enters_path (uri_relaxed : Bool) : ∀ code, inRanges Grammar.alpha code = false →
    enters (targetState uri_relaxed) (Grammar.relative_part uri_relaxed) (pathFrames uri_relaxed)
      .mark code := by
  apply enters_of_bounds
  cases uri_relaxed <;> decide +kernel

theorem enters_query (uri_relaxed : Bool) : ∀ code,
    enters (queryState uri_relaxed) (queryPart uri_relaxed) (queryFrames uri_relaxed)
      .start_query code := by
  apply fun known code => @enters_of_bounds _ _ _ _ [] known code rfl
  cases uri_relaxed <;> decide +kernel

theorem enters_fragment (uri_relaxed : Bool) : ∀ code,
    enters (fragmentState uri_relaxed) (queryPart uri_relaxed) fragmentFrames .mark code := by
  apply fun known code => @enters_of_bounds _ _ _ _ [] known code rfl
  cases uri_relaxed <;> decide +kernel

example : enters (fragmentState false) (queryPart false) fragmentFrames .mark 0x61 := by
  decide +kernel

/-! ## Bytes behind a part -/

/-- What may stand behind a path. -/
def stops : List UInt8 := [0x3F, 0x23, 0x20]

/-- Where the machine is behind such a byte. -/
def behind (uri_relaxed : Bool) (stop : UInt8) : List (Machine Action) :=
  if stop = 0x3F then queryState uri_relaxed
  else if stop = 0x23 then fragmentState uri_relaxed
  else versionState

theorem behind_query (uri_relaxed : Bool) : behind uri_relaxed 0x3F = queryState uri_relaxed :=
  if_pos rfl

theorem behind_fragment (uri_relaxed : Bool) :
    behind uri_relaxed 0x23 = fragmentState uri_relaxed := by
  rw [behind, if_neg (by decide), if_pos rfl]

theorem behind_blank (uri_relaxed : Bool) : behind uri_relaxed 0x20 = versionState := by
  rw [behind, if_neg (by decide), if_neg (by decide)]

/-- What stands behind a part is left to the rules around the part, with their actions. -/
structure PartEnds (uri_relaxed : Bool) : Prop where
  follows_path : (plug (pathFrames uri_relaxed) empty).startsIn
    (stops.map fun code => (code, code)) = true
  follows_query : (plug (queryFrames uri_relaxed) empty).startsIn
    ([0x23, 0x20].map fun code => (code, code)) = true
  follows_fragment :
    (plug fragmentFrames empty).startsIn ([0x20].map fun code => (code, code)) = true
  leave_path : ∀ stop ∈ stops, (plug (pathFrames uri_relaxed) empty).single stop = true ∧
    step [plug (pathFrames uri_relaxed) empty] stop = some (behind uri_relaxed stop,
      .request_path :: if stop = 0x3F then [] else [.request_uri])
  leave_empty_path : ∀ stop ∈ stops,
    step (targetState uri_relaxed) stop = some (behind uri_relaxed stop,
      [.mark, .request_path] ++ if stop = 0x3F then [] else [.request_uri])
  leave_query : ∀ stop ∈ [0x23, 0x20],
    (plug (queryFrames uri_relaxed) empty).single stop = true ∧
      step [plug (queryFrames uri_relaxed) empty] stop =
        some (behind uri_relaxed stop, [.query_string, .request_uri])
  leave_fragment : (plug fragmentFrames empty).single 0x20 = true ∧
    step [plug fragmentFrames empty] 0x20 = some (versionState, [.fragment])
  stops_of_path : ∀ ranges ∈ (Grammar.relative_part uri_relaxed).classes,
    ∀ stop ∈ stops, inRanges ranges stop = false
  stops_of_query : ∀ ranges ∈ (queryPart uri_relaxed).classes,
    ∀ stop ∈ [0x23, 0x20], inRanges ranges stop = false

theorem partEnds (uri_relaxed : Bool) : PartEnds uri_relaxed where
  follows_path := by cases uri_relaxed <;> decide +kernel
  follows_query := by cases uri_relaxed <;> decide +kernel
  follows_fragment := by decide +kernel
  leave_path := by cases uri_relaxed <;> decide +kernel
  leave_empty_path := by cases uri_relaxed <;> decide +kernel
  leave_query := by cases uri_relaxed <;> decide +kernel
  leave_fragment := by decide +kernel
  stops_of_path := by cases uri_relaxed <;> decide +kernel
  stops_of_query := by cases uri_relaxed <;> decide +kernel

example : trace (targetState false) (ascii "/a?") =
    some ([[.mark], [], [.request_path]], queryState false) := by
  decide +kernel

/-! ## Schemes -/

/-- The path alone, in what may be a scheme. -/
def segmentState (uri_relaxed : Bool) : List (Machine Action) :=
  walk [Grammar.relative_part uri_relaxed] (ascii "a")

/-- The scheme that the state may be in besides a path. -/
def isScheme (uri_relaxed : Bool) (machine : Machine Action) : Prop :=
  machine ∈ (schemeState uri_relaxed).take 1

/-- What may be a scheme is a path as well, until a colon comes. -/
structure SchemeMoves (uri_relaxed : Bool) : Prop where
  first_of_scheme :
    moves (targetState uri_relaxed) Grammar.alpha (schemeState uri_relaxed) [.mark] = true
  more_of_scheme :
    moves (schemeState uri_relaxed) schemeBytes (schemeState uri_relaxed) [] = true
  first_of_segment : moves [Grammar.relative_part uri_relaxed] Grammar.alpha
    (segmentState uri_relaxed) [] = true
  more_of_segment :
    moves (segmentState uri_relaxed) schemeBytes (segmentState uri_relaxed) [] = true
  no_colon : step (segmentState uri_relaxed) 0x3A = none
  scheme_starts : ∀ machine ∈ (schemeState uri_relaxed).take 1,
    machine.startsIn ((0x3A, 0x3A) :: schemeBytes) = true
  scheme_rest : (schemeState uri_relaxed).drop 1 =
    (segmentState uri_relaxed).map (plug (pathFrames uri_relaxed))

theorem schemeMoves (uri_relaxed : Bool) : SchemeMoves uri_relaxed where
  first_of_scheme := moves_of_bounds (by cases uri_relaxed <;> decide +kernel)
  more_of_scheme := moves_of_bounds (by cases uri_relaxed <;> decide +kernel)
  first_of_segment := moves_of_bounds (by cases uri_relaxed <;> decide +kernel)
  more_of_segment := moves_of_bounds (by cases uri_relaxed <;> decide +kernel)
  no_colon := by cases uri_relaxed <;> decide +kernel
  scheme_starts := by cases uri_relaxed <;> decide +kernel
  scheme_rest := by cases uri_relaxed <;> decide +kernel

example : trace [Grammar.relative_part false] (ascii "a1.b") =
    some (List.replicate 4 [], segmentState false) := by
  decide +kernel

/-! ## Texts -/

/-- A text of the part. -/
def accepts (part : Machine Action) (text : Bytes) : Prop := final (walk [part] text) = true

instance (part : Machine Action) (text : Bytes) : Decidable (accepts part text) :=
  inferInstanceAs (Decidable (final (walk [part] text) = true))

/-- The actions on a text that begins with `first`. -/
def textActions (first : Action) : Nat → List (List Action)
  | 0 => []
  | length + 1 => [first] :: List.replicate length []

theorem alive_of_final {cs : List (Machine Action)} (isFinal : final cs = true) : cs ≠ [] := by
  rintro rfl
  cases isFinal

theorem single_plain {part : Machine Action} (flat : part.plain = true) :
    ∀ machine ∈ [part], machine.plain = true := by
  intro machine member
  rwa [List.mem_singleton.mp member]

/-- A text of a part that a state enters with an action. -/
theorem trace_part {cs : List (Machine Action)} {part : Machine Action}
    {frames : List (Frame Action)} {first : Action} {byte : UInt8} {rest : Bytes}
    (flat : part.plain = true) (enter : enters cs part frames first byte)
    (nothing : ∀ code ∈ rest, (plug frames empty).derive code = [])
    (alive : walk [part] (byte :: rest) ≠ []) :
    ∃ last, trace cs (byte :: rest) = some (textActions first (rest.length + 1), last) ∧
      Shows frames (walk [part] (byte :: rest)) (fun _ => False) last := by
  have flatAfter := plain_walk (single_plain flat) [byte]
  rw [walk] at alive ⊢
  rw [walk] at flatAfter
  split at alive
  next => exact absurd rfl alive
  next after actions goes =>
    rw [goes] at flatAfter
    have entered := enter after (by rw [goes]; rfl)
    obtain ⟨last, traced, shown⟩ := (shows_map flatAfter).run nothing alive
    exact ⟨last, trace_cons entered traced, shown⟩

/-- Behind a text of a part stands no byte that the part could take. -/
theorem derive_behind {part : Machine Action} {stop : UInt8}
    (apart : ∀ ranges ∈ part.classes, inRanges ranges stop = false) (text : Bytes) :
    ∀ machine ∈ walk [part] text, machine.derive stop = [] := by
  intro machine member
  apply derive_eq_nil_of_classes
  intro ranges isClass
  have kept := classes_of_walk [part] text (List.mem_flatMap.mpr ⟨machine, member, isClass⟩)
  rw [List.flatMap_singleton] at kept
  exact apart ranges kept

/-- What stands behind a part begins with no byte of the part. -/
theorem nothing_inside {part : Machine Action} {frames : List (Frame Action)} {text : Bytes}
    {after : List UInt8}
    (follows : (plug frames empty).startsIn (after.map fun code => (code, code)) = true)
    (apart : ∀ ranges ∈ part.classes, ∀ stop ∈ after, inRanges ranges stop = false)
    (alive : walk [part] text ≠ []) : ∀ code ∈ text, (plug frames empty).derive code = [] := by
  intro code member
  apply derive_eq_nil_of_startsIn follows
  apply inRanges_single
  intro isStop
  obtain ⟨ranges, isClass, inside⟩ := classes_of_alive alive code member
  rw [List.flatMap_singleton] at isClass
  rw [apart ranges isClass code isStop] at inside
  cases inside

/-! ### The path -/

theorem relative_part_plain (uri_relaxed : Bool) :
    (Grammar.relative_part uri_relaxed).plain = true := by
  cases uri_relaxed <;> decide +kernel

section Path

variable {uri_relaxed : Bool} {path : Bytes}

theorem nothing_in_path (alive : walk [Grammar.relative_part uri_relaxed] path ≠ []) :
    ∀ code ∈ path, (plug (pathFrames uri_relaxed) empty).derive code = [] :=
  nothing_inside (partEnds uri_relaxed).follows_path (partEnds uri_relaxed).stops_of_path alive

/-- What the state shows behind a path. -/
def BehindPath (uri_relaxed : Bool) (path : Bytes) (last : List (Machine Action)) : Prop :=
  ∃ other, Shows (pathFrames uri_relaxed) (walk [Grammar.relative_part uri_relaxed] path) other last ∧
    ∀ machine, other machine → ∀ stop ∈ stops, machine.derive stop = []

/-- A path that is no beginning of a scheme. -/
theorem trace_path_other {byte : UInt8} {rest : Bytes}
    (other : inRanges Grammar.alpha byte = false)
    (alive : walk [Grammar.relative_part uri_relaxed] (byte :: rest) ≠ []) :
    ∃ last, trace (targetState uri_relaxed) (byte :: rest) =
        some (textActions .mark (rest.length + 1), last) ∧
      BehindPath uri_relaxed (byte :: rest) last := by
  obtain ⟨last, traced, shown⟩ := trace_part (relative_part_plain uri_relaxed)
    (enters_path uri_relaxed byte other)
    (fun code member => nothing_in_path alive code (List.mem_cons_of_mem _ member)) alive
  exact ⟨last, traced, fun _ => False, shown, fun _ isOther => isOther.elim⟩

theorem shows_scheme : Shows (pathFrames uri_relaxed) (segmentState uri_relaxed)
    (isScheme uri_relaxed) (schemeState uri_relaxed) where
  has := fun machine member =>
    List.mem_of_mem_drop (i := 1) ((schemeMoves uri_relaxed).scheme_rest ▸ List.mem_map_of_mem member)
  only := by
    intro machine member
    rw [← List.take_append_drop 1 (schemeState uri_relaxed), List.mem_append,
      (schemeMoves uri_relaxed).scheme_rest] at member
    rcases member with scheme | path
    · exact .inr scheme
    · obtain ⟨part, isPart, rfl⟩ := List.mem_map.mp path
      exact .inl ⟨part, isPart, rfl⟩
  flat := plain_walk (single_plain (relative_part_plain uri_relaxed)) _

theorem stop_in_scheme : ∀ stop ∈ stops,
    inRanges ((0x3A, 0x3A) :: schemeBytes) stop = false := by
  decide

theorem not_in_scheme : ∀ code : UInt8, inRanges schemeBytes code = false → code ≠ 0x3A →
    inRanges ((0x3A, 0x3A) :: schemeBytes) code = false :=
  forall_byte (by decide +kernel)

/-- The bytes of a scheme, which may all belong to the path. -/
theorem trace_scheme {byte : UInt8} {text : Bytes} (first : inRanges Grammar.alpha byte = true)
    (more : ∀ code ∈ text, inRanges schemeBytes code = true) :
    trace (targetState uri_relaxed) (byte :: text) =
        some (textActions .mark (text.length + 1), schemeState uri_relaxed) ∧
      walk [Grammar.relative_part uri_relaxed] (byte :: text) = segmentState uri_relaxed := by
  have whole := trace_append (trace_moves (schemeMoves uri_relaxed).first_of_scheme first)
    (trace_loop (schemeMoves uri_relaxed).more_of_scheme more)
  have path := walk_of_trace (trace_append
    (trace_moves (schemeMoves uri_relaxed).first_of_segment first)
    (trace_loop (schemeMoves uri_relaxed).more_of_segment more))
  rw [List.singleton_append, List.singleton_append] at whole
  rw [List.singleton_append] at path
  exact ⟨whole, path⟩

/-- The path alone goes on behind a scheme, though not with a colon. -/
theorem step_segment {byte code : UInt8} {text more : Bytes}
    (walked : walk [Grammar.relative_part uri_relaxed] (byte :: text) = segmentState uri_relaxed)
    (alive : walk [Grammar.relative_part uri_relaxed] (byte :: text ++ code :: more) ≠ []) :
    code ≠ 0x3A ∧ ∃ after actions, step (segmentState uri_relaxed) code = some (after, actions) ∧
      walk [Grammar.relative_part uri_relaxed] (byte :: text ++ code :: more) = walk after more := by
  rw [walk_append, walked, walk] at alive
  cases stepped : step (segmentState uri_relaxed) code with
  | none =>
      rw [stepped] at alive
      exact absurd rfl alive
  | some moved =>
      constructor
      · rintro rfl
        rw [(schemeMoves uri_relaxed).no_colon] at stepped
        cases stepped
      · refine ⟨moved.1, moved.2, rfl, ?_⟩
        rw [walk_append, walked, walk, stepped]

/-- A path that begins as a scheme does. -/
theorem trace_path_scheme {byte : UInt8} {rest : Bytes}
    (first : inRanges Grammar.alpha byte = true)
    (alive : walk [Grammar.relative_part uri_relaxed] (byte :: rest) ≠ []) :
    ∃ last, trace (targetState uri_relaxed) (byte :: rest) =
        some (textActions .mark (rest.length + 1), last) ∧
      BehindPath uri_relaxed (byte :: rest) last := by
  have parts := List.takeWhile_append_dropWhile (p := inRanges schemeBytes) (l := rest)
  have taken : ∀ code ∈ rest.takeWhile (inRanges schemeBytes), inRanges schemeBytes code = true :=
    fun code member => List.mem_takeWhile_imp member
  have stopped := List.head?_dropWhile_not (inRanges schemeBytes) rest
  generalize rest.takeWhile (inRanges schemeBytes) = text at parts taken
  generalize rest.dropWhile (inRanges schemeBytes) = behind at parts stopped
  subst parts
  obtain ⟨traced, walked⟩ := @trace_scheme uri_relaxed byte text first taken
  cases behind with
  | nil =>
      rw [List.append_nil]
      refine ⟨_, traced, isScheme uri_relaxed, ?_, ?_⟩
      · rw [walked]
        exact shows_scheme
      · intro machine member stop isStop
        exact derive_eq_nil_of_startsIn ((schemeMoves uri_relaxed).scheme_starts machine member)
          (stop_in_scheme stop isStop)
  | cons code more =>
      have inside := nothing_in_path alive
      obtain ⟨noColon, after, actions, stepped, onward⟩ := step_segment walked alive
      rw [← List.cons_append, onward] at alive
      -- the scheme is given up on this byte
      have given : ∀ machine, isScheme uri_relaxed machine → ∀ thread ∈ machine.derive code,
          thread.Quiet fun _ => False := by
        intro machine member thread derived
        have nothing := derive_eq_nil_of_startsIn
          ((schemeMoves uri_relaxed).scheme_starts machine member)
          (not_in_scheme code stopped noColon)
        rw [nothing] at derived
        cases derived
      obtain ⟨mid, moved, shown⟩ := shows_scheme.step
        (inside code (List.mem_cons_of_mem _ (List.mem_append_right _ List.mem_cons_self)))
        given stepped
      obtain ⟨last, tracedMore, shownLast⟩ := shown.run
        (fun other member => inside other
          (List.mem_cons_of_mem _ (List.mem_append_right _ (List.mem_cons_of_mem _ member)))) alive
      refine ⟨last, ?_, fun _ => False, ?_, fun _ isOther => isOther.elim⟩
      · have whole := trace_append traced (trace_cons moved tracedMore)
        rw [List.length_append, List.length_cons]
        rw [List.cons_append] at whole
        rw [whole, textActions, textActions, List.cons_append, ← List.replicate_succ,
          List.replicate_append_replicate]
      · rw [← List.cons_append, onward]
        exact shownLast

/-- A path that is not empty, as a part of the machine. -/
theorem trace_path_text {byte : UInt8} {rest : Bytes}
    (alive : walk [Grammar.relative_part uri_relaxed] (byte :: rest) ≠ []) :
    ∃ last, trace (targetState uri_relaxed) (byte :: rest) =
        some (textActions .mark (rest.length + 1), last) ∧
      BehindPath uri_relaxed (byte :: rest) last := by
  cases first : inRanges Grammar.alpha byte with
  | true => exact trace_path_scheme first alive
  | false => exact trace_path_other first alive

/-- What is pending behind a path. -/
def pathEnd (stop : UInt8) : List Action :=
  .request_path :: if stop = 0x3F then [] else [.request_uri]

/-- A path with the byte behind it. -/
theorem trace_path (accepted : accepts (Grammar.relative_part uri_relaxed) path) {stop : UInt8}
    (isStop : stop ∈ stops) :
    trace (targetState uri_relaxed) (path ++ [stop]) =
      some (spanActions .mark (pathEnd stop) path.length, behind uri_relaxed stop) := by
  have ended : trace (behind uri_relaxed stop) [] = some ([], behind uri_relaxed stop) := rfl
  cases path with
  | nil => exact trace_cons ((partEnds uri_relaxed).leave_empty_path stop isStop) ended
  | cons byte rest =>
      obtain ⟨last, traced, other, shown, others⟩ := trace_path_text (alive_of_final accepted)
      obtain ⟨one, leaves⟩ := (partEnds uri_relaxed).leave_path stop isStop
      have left := shown.leave
        (derive_behind (fun ranges isClass =>
          (partEnds uri_relaxed).stops_of_path ranges isClass stop isStop) _)
        (fun machine isOther => others machine isOther stop isStop) one accepted
      exact trace_append traced (trace_cons (left.trans leaves) ended)

end Path

/-! ### The query and the fragment -/

/-- A part that a state enters on each of its bytes, with the byte behind it. -/
theorem trace_entered {cs next : List (Machine Action)} {part : Machine Action}
    {frames : List (Frame Action)} {first : Action} {last : List Action} {after : List UInt8}
    {text : Bytes} {stop : UInt8} (flat : part.plain = true)
    (enter : ∀ code, enters cs part frames first code)
    (follows : (plug frames empty).startsIn (after.map fun code => (code, code)) = true)
    (apart : ∀ ranges ∈ part.classes, ∀ stop ∈ after, inRanges ranges stop = false)
    (leaves : (plug frames empty).single stop = true ∧
      step [plug frames empty] stop = some (next, last))
    (accepted : accepts part text) (nonempty : text ≠ []) (isStop : stop ∈ after) :
    trace cs (text ++ [stop]) = some (spanActions first last text.length, next) := by
  obtain ⟨byte, rest, rfl⟩ := List.exists_cons_of_ne_nil nonempty
  have alive := alive_of_final accepted
  obtain ⟨ending, traced, shown⟩ := trace_part flat (enter byte)
    (fun code member => nothing_inside follows apart alive code (List.mem_cons_of_mem _ member)) alive
  have left := shown.leave
    (derive_behind (fun ranges isClass => apart ranges isClass stop isStop) _)
    (fun _ isOther => isOther.elim) leaves.1 accepted
  have ended : trace next [] = some ([], next) := rfl
  exact trace_append traced (trace_cons (left.trans leaves.2) ended)

section Query

variable {uri_relaxed : Bool} {text : Bytes}

theorem queryPart_plain (uri_relaxed : Bool) : (queryPart uri_relaxed).plain = true := by
  cases uri_relaxed <;> decide +kernel

/-- A query with the byte behind it. -/
theorem trace_query (accepted : accepts (queryPart uri_relaxed) text) (nonempty : text ≠ [])
    {stop : UInt8} (isStop : stop ∈ [0x23, 0x20]) :
    trace (queryState uri_relaxed) (text ++ [stop]) =
      some (spanActions .start_query [.query_string, .request_uri] text.length,
        behind uri_relaxed stop) :=
  trace_entered (queryPart_plain uri_relaxed) (enters_query uri_relaxed)
    (partEnds uri_relaxed).follows_query (partEnds uri_relaxed).stops_of_query
    ((partEnds uri_relaxed).leave_query stop isStop) accepted nonempty isStop

/-- A fragment with the blank behind it. -/
theorem trace_fragment (accepted : accepts (queryPart uri_relaxed) text) (nonempty : text ≠ []) :
    trace (fragmentState uri_relaxed) (text ++ [0x20]) =
      some (spanActions .mark [.fragment] text.length, versionState) :=
  trace_entered (queryPart_plain uri_relaxed) (enters_fragment uri_relaxed)
    (partEnds uri_relaxed).follows_fragment
    (fun ranges isClass stop isBlank => (partEnds uri_relaxed).stops_of_query ranges isClass stop
      (List.mem_cons_of_mem _ isBlank))
    (partEnds uri_relaxed).leave_fragment accepted nonempty (List.mem_singleton.mpr rfl)

end Query

end Exhy.Http.RequestLine
