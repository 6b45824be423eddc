import Exhy.Uri.Reference

/-!
# Runs of the parser

What `Create` makes of the rest of a text.  The actions read no more of the text than what
stands between the mark and their place, and the port what comes behind it as well: a run is
followed with the bytes since the mark in place of positions.
-/

namespace Exhy.Uri

open Library Machine

/-! ## Actions without positions -/

/-- The components so far and the text since the mark. -/
structure Seen where
  uri : Uri := {}
  since : Option Bytes := none

namespace Seen

/-- An action in front of the rest of the text; none where it throws. -/
def perform (rest : Bytes) (action : Action) (seen : Seen) : Option Seen :=
  match action with
  | .marku | .markh => some { seen with since := some [] }
  | .save_scheme => seen.since.map fun text => { uri := { seen.uri with m_scheme := text } }
  | .save_port => seen.since.map fun text =>
      if text = [] then { seen with since := none }
      else { uri := { seen.uri with m_port := atoi (text ++ rest) } }
  | .save_userinfo =>
      match seen.since with
      | some text => some { uri := { seen.uri with m_userinfo := text } }
      | none => some seen
  | .save_host =>
      match seen.since with
      | some text => some { seen with uri := { seen.uri with m_host := text } }
      | none => some seen
  | .save_path => seen.since.map fun text => { uri := { seen.uri with m_path := text } }
  | .save_query => seen.since.map fun text => { uri := { seen.uri with m_query := text } }
  | .save_fragment => seen.since.map fun text => { uri := { seen.uri with m_fragment := text } }

def performAll (rest : Bytes) : List Action → Seen → Option Seen
  | [], seen => some seen
  | action :: later, seen => (seen.perform rest action).bind (performAll rest later)

/-- What is read comes behind the mark. -/
def read (seen : Seen) (text : Bytes) : Seen :=
  { seen with since := seen.since.map (· ++ text) }

theorem performAll_append (rest : Bytes) (first second : List Action) (seen : Seen) :
    seen.performAll rest (first ++ second) =
      (seen.performAll rest first).bind (performAll rest second) := by
  induction first generalizing seen with
  | nil => rfl
  | cons action later ih =>
      rw [List.cons_append, performAll, performAll, Option.bind_assoc]
      simp only [ih]

theorem read_nil (seen : Seen) : seen.read [] = seen := by
  simp [read]

theorem read_read (seen : Seen) (first second : Bytes) :
    (seen.read first).read second = seen.read (first ++ second) := by
  simp [read, Function.comp_def]

/-- What the variables of `Create` are once a part of the text is read. -/
structure Of (done : Bytes) (seen : Seen) (state : Parsing) : Prop where
  uri : state.uri = seen.uri
  mark : ∀ text ∈ seen.since, ∃ start, done = start ++ text ∧ state.mark = some start.length
  unmarked : seen.since = none → state.mark = none

variable {seen : Seen} {state : Parsing} {done rest text : Bytes}

theorem Of.read (isOf : seen.Of done state) (text : Bytes) :
    (seen.read text).Of (done ++ text) state where
  uri := isOf.uri
  mark := by
    intro whole isSince
    obtain ⟨before, isBefore, rfl⟩ := Option.map_eq_some_iff.mp isSince
    obtain ⟨start, rfl, isMark⟩ := isOf.mark before isBefore
    exact ⟨start, List.append_assoc .., isMark⟩
  unmarked := by
    intro none
    exact isOf.unmarked (Option.map_eq_none_iff.mp none)

/-- The text between the mark and the place of an action. -/
theorem Of.marked (isOf : seen.Of done state) (rest : Bytes) :
    state.marked (done ++ rest) done.length = seen.since := by
  cases isSince : seen.since with
  | none => rw [Parsing.marked, isOf.unmarked isSince, Option.map_none]
  | some text =>
      obtain ⟨start, rfl, isMark⟩ := isOf.mark text isSince
      rw [Parsing.marked, isMark, Option.map_some, List.append_assoc, List.drop_left,
        List.length_append, Nat.add_sub_cancel_left, List.take_left]

theorem of_unmarked (done : Bytes) (uri : Uri) : ({ uri := uri } : Seen).Of done { uri := uri } :=
  ⟨rfl, nofun, fun _ => rfl⟩

theorem of_marked (done : Bytes) (uri : Uri) :
    ({ uri := uri, since := some [] } : Seen).Of done { uri := uri, mark := some done.length } where
  uri := rfl
  mark := by
    rintro _ ⟨⟩
    exact ⟨done, (List.append_nil done).symm, rfl⟩
  unmarked := nofun

/-- Where there is a mark, the port is read behind it. -/
theorem Of.save_port (isOf : seen.Of done state) (rest : Bytes) :
    Option.Rel (Of done) (seen.perform rest .save_port)
      (state.perform (done ++ rest) done.length .save_port) := by
  cases isSince : seen.since with
  | none =>
      rw [Seen.perform, Parsing.perform, isSince, isOf.unmarked isSince]
      exact .none
  | some text =>
      obtain ⟨start, rfl, isMark⟩ := isOf.mark text isSince
      have here : state.mark ≠ some (start ++ text).length ↔ text ≠ [] := by
        rw [isMark, List.length_append, ne_eq, ne_eq, Option.some_inj, Nat.left_eq_add,
          List.length_eq_zero_iff]
      rw [Seen.perform, Parsing.perform, isSince, if_congr here rfl rfl, isMark]
      by_cases nothing : text = []
      · rw [if_neg (not_not.mpr nothing), Option.map_some, if_pos nothing]
        exact .some ⟨isOf.uri, by rintro _ ⟨⟩, fun _ => rfl⟩
      · rw [if_pos nothing, Option.map_some, Option.map_some, if_neg nothing, isOf.uri,
          List.append_assoc, List.drop_left]
        exact .some (of_unmarked _ _)

/-- An action saves what was read since the mark. -/
theorem Of.perform (isOf : seen.Of done state) (rest : Bytes) (action : Action) :
    Option.Rel (Of done) (seen.perform rest action)
      (state.perform (done ++ rest) done.length action) := by
  have marked := isOf.marked rest
  have uri := isOf.uri
  cases action with
  | marku | markh =>
      rw [Seen.perform, Parsing.perform, ← uri]
      exact .some (of_marked done state.uri)
  | save_port => exact isOf.save_port rest
  | save_scheme | save_path | save_query | save_fragment =>
      rw [Seen.perform, Parsing.perform, marked, ← uri]
      cases seen.since with
      | none => exact .none
      | some text => exact .some (of_unmarked done _)
  | save_userinfo =>
      rw [Seen.perform, Parsing.perform, marked, ← uri]
      cases seen.since with
      | none => exact .some isOf
      | some text => exact .some (of_unmarked done _)
  | save_host =>
      rw [Seen.perform, Parsing.perform, marked, ← uri]
      cases isSince : seen.since with
      | none => exact .some isOf
      | some text => exact .some ⟨rfl, isSince ▸ isOf.mark, isSince ▸ isOf.unmarked⟩

/-- None of the actions breaks the run. -/
theorem Of.performAll (isOf : seen.Of done state) (rest : Bytes) (actions : List Action) :
    Option.Rel (fun after result => after.Of done result.1 ∧ result.2 = false)
      (seen.performAll rest actions)
      (Machine.perform (Parsing.perform (done ++ rest)) (fun _ => false) done.length actions state) := by
  induction actions generalizing seen state with
  | nil => exact .some ⟨isOf, rfl⟩
  | cons action later ih =>
      rw [Seen.performAll, Machine.perform]
      have first := isOf.perform rest action
      generalize seen.perform rest action = mine at first ⊢
      generalize state.perform (done ++ rest) done.length action = theirs at first ⊢
      cases first with
      | none => exact .none
      | some isAfter => exact ih isAfter

end Seen

/-! ## Runs -/

/-- What `Create` makes of the rest of a text. -/
def run (done rest : Bytes) (cs : List (Machine Action)) (state : Parsing) : Option (Option Uri) :=
  (Machine.exec (Parsing.perform (done ++ rest)) (fun _ => false) rest done.length cs state).bind
    fun (state, cs, p) =>
      (Machine.perform (Parsing.perform (done ++ rest)) (fun _ => false) p (Machine.atEnd cs)
        state).map fun (state, _) => if Machine.final cs then some state.uri else none

theorem run_nil_eq_Create (str : Bytes) : run [] str [Grammar.main] {} = Create str := by
  rw [run, Create, exec, List.nil_append]
  cases Machine.exec (Parsing.perform str) (fun _ => false) str 0 [Grammar.main] {} with
  | none => rfl
  | some result =>
      rw [Option.bind_some, Option.map_map]
      rfl

variable {done rest text : Bytes} {code : UInt8} {cs next : List (Machine Action)} {seen : Seen}
  {state : Parsing} {actions : List Action}

/-- A byte and what is performed on it. -/
theorem run_cons (isOf : seen.Of done state) (stepped : step cs code = some (next, actions))
    {result : Option (Option Uri)}
    (later : ∀ after ∈ seen.performAll (code :: rest) actions, ∀ state, after.Of done state →
      run (done ++ [code]) rest next state = result)
    (throws : seen.performAll (code :: rest) actions = none → result = none) :
    run done (code :: rest) cs state = result := by
  rw [run, Machine.exec, stepped]
  dsimp only
  have performed := isOf.performAll (code :: rest) actions
  generalize seen.performAll (code :: rest) actions = mine at performed later throws
  generalize Machine.perform (Parsing.perform (done ++ code :: rest)) (fun _ => false) done.length
    actions state = theirs at performed ⊢
  cases performed with
  | none => rw [throws rfl, Option.bind_none]
  | @some after result both =>
      obtain ⟨mid, broke⟩ := result
      cases both.2
      have onward := later after rfl mid both.1
      rw [run, List.append_assoc, List.length_append] at onward
      exact onward

end Exhy.Uri
