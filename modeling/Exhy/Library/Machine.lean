import Exhy.Library.CString
import Mathlib.Data.List.Flatten
import Mathlib.Data.List.Sort

/-!
# Regular machines with actions

Regular expressions over bytes whose parts carry actions, as scanner generators take them:
an action is performed on the bytes that enter, leave or finish a part.  A machine runs one
byte at a time.  What may still follow is a set of residual machines, and the actions of
all ways to take a byte are performed in the order in which they stand in the expression.
-/

namespace Library

universe u

/-- `guarded` is the concatenation that gives up the first part as soon as the second can
start.  The numbers are filled in by `number`. -/
inductive Machine (Action : Type u) where
  | empty
  | bytes (ranges : List (UInt8 × UInt8))
  | seq (first second : Machine Action)
  | alt (left right : Machine Action)
  | star (body : Machine Action)
  | entering (order : Nat) (action : Action) (body : Machine Action)
  | leaving (order : Nat) (action : Action) (body : Machine Action)
  | finishing (order : Nat) (action : Action) (body : Machine Action)
  | guarded (key : Nat) (first second : Machine Action)
  deriving DecidableEq

/-- The elements of a list, each at its first place only. -/
def distinct {α : Type u} [DecidableEq α] : List α → List α
  | [] => []
  | item :: rest => item :: (distinct rest).filter (· ≠ item)

theorem mem_distinct {α : Type u} [DecidableEq α] {item : α} {items : List α} :
    item ∈ distinct items ↔ item ∈ items := by
  induction items with
  | nil => rfl
  | cons first rest ih =>
      rw [distinct, List.mem_cons, List.mem_cons, List.mem_filter, ih, decide_eq_true_eq]
      constructor
      · rintro (here | ⟨there, -⟩)
        · exact .inl here
        · exact .inr there
      · rintro (here | there)
        · exact .inl here
        · by_cases same : item = first
          · exact .inl same
          · exact .inr ⟨there, same⟩

namespace Machine

variable {Action : Type u}

/-! ## Building machines -/

/-- One byte of a list of ranges. -/
def inRanges (ranges : List (UInt8 × UInt8)) (byte : UInt8) : Bool :=
  ranges.any fun range => range.1 ≤ byte && byte ≤ range.2

def byte (byte : UInt8) : Machine Action := bytes [(byte, byte)]

/-- The characters of a text of ASCII characters. -/
def chars (text : String) : List (UInt8 × UInt8) :=
  text.toList.map fun char => (char.toUInt8, char.toUInt8)

/-- The machines one after another. -/
def sequence : List (Machine Action) → Machine Action
  | [] => empty
  | [last] => last
  | first :: rest => seq first (sequence rest)

/-- Any of the machines. -/
def choice : List (Machine Action) → Machine Action
  | [] => bytes []
  | [last] => last
  | first :: rest => alt first (choice rest)

def literal (text : String) : Machine Action :=
  sequence ((chars text).map fun range => bytes [range])

/-- A text in any case. -/
def literalAnyCase (text : String) : Machine Action :=
  sequence (text.toList.map fun char =>
    bytes [(char.toLower.toUInt8, char.toLower.toUInt8),
      (char.toUpper.toUInt8, char.toUpper.toUInt8)])

def opt (body : Machine Action) : Machine Action := alt body empty

def plus (body : Machine Action) : Machine Action := seq body (star body)

/-- `body{times}`. -/
def repeated (times : Nat) (body : Machine Action) : Machine Action :=
  sequence (List.replicate times body)

/-- `body{0,most}`. -/
def upTo : Nat → Machine Action → Machine Action
  | 0, _ => empty
  | most + 1, body => opt (seq body (upTo most body))

def enter (body : Machine Action) (action : Action) : Machine Action := entering 0 action body

def leave (body : Machine Action) (action : Action) : Machine Action := leaving 0 action body

def finish (body : Machine Action) (action : Action) : Machine Action := finishing 0 action body

def guard (first second : Machine Action) : Machine Action := guarded 0 first second

/-- Number the actions in the order in which they stand: an entering action before its
part, the others after it.  The result has the next free number. -/
def number : Machine Action → Nat → Machine Action × Nat
  | empty, next => (empty, next)
  | bytes ranges, next => (bytes ranges, next)
  | seq first second, next =>
      let (first, next) := first.number next
      let (second, next) := second.number next
      (seq first second, next)
  | alt left right, next =>
      let (left, next) := left.number next
      let (right, next) := right.number next
      (alt left right, next)
  | star body, next =>
      let (body, next) := body.number next
      (star body, next)
  | entering _ action body, next =>
      let (body, last) := body.number (next + 1)
      (entering next action body, last)
  | leaving _ action body, next =>
      let (body, next) := body.number next
      (leaving next action body, next + 1)
  | finishing _ action body, next =>
      let (body, next) := body.number next
      (finishing next action body, next + 1)
  | guarded _ first second, next =>
      let (first, next) := first.number next
      let (second, next) := second.number next
      (guarded next first second, next + 1)

/-! ## Running machines -/

/-- The actions that wait for the byte after the machine, when it may end here. -/
def exit : Machine Action → Option (List (Nat × Action))
  | empty => some []
  | bytes _ => none
  | seq first second | guarded _ first second =>
      match first.exit, second.exit with
      | some before, some after => some (before ++ after)
      | _, _ => none
  | alt left right =>
      match left.exit, right.exit with
      | some before, some after => some (before ++ after)
      | some actions, none | none, some actions => some actions
      | none, none => none
  | star _ => some []
  | entering order action body => body.exit.map ((order, action) :: ·)
  | leaving order action body => body.exit.map (· ++ [(order, action)])
  | finishing _ _ body => body.exit

/-- One way to take a byte: what may follow, the actions, and the priorities by the guard
that set them. -/
structure Thread (Action : Type u) where
  rest : Machine Action
  actions : List (Nat × Action) := []
  priorities : List (Nat × Bool) := []

namespace Thread

def andThen (thread : Thread Action) (rest : Machine Action → Machine Action) : Thread Action :=
  { thread with rest := rest thread.rest }

def after (actions : List (Nat × Action)) (thread : Thread Action) : Thread Action :=
  { thread with actions := actions ++ thread.actions }

def withPriority (key : Nat) (high : Bool) (thread : Thread Action) : Thread Action :=
  { thread with priorities := (key, high) :: thread.priorities }

/-- The other thread has the higher priority for some guard. -/
def yields (thread other : Thread Action) : Bool :=
  thread.priorities.any fun priority =>
    !priority.2 && other.priorities.contains (priority.1, true)

end Thread

/-- The ways to take a byte. -/
def derive (byte : UInt8) : Machine Action → List (Thread Action)
  | empty => []
  | bytes ranges => if inRanges ranges byte then [{ rest := empty }] else []
  | seq first second =>
      (first.derive byte).map (Thread.andThen · (seq · second)) ++
        match first.exit with
        | some actions => (second.derive byte).map (Thread.after actions)
        | none => []
  | alt left right => left.derive byte ++ right.derive byte
  | star body => (body.derive byte).map (Thread.andThen · (seq · (star body)))
  | entering order action body => (body.derive byte).map (Thread.after [(order, action)])
  | leaving order action body =>
      (body.derive byte).map (Thread.andThen · (leaving order action))
  | finishing order action body =>
      (body.derive byte).map fun thread =>
        { thread with
          rest := finishing order action thread.rest
          actions := thread.actions ++
            if thread.rest.exit.isSome then [(order, action)] else [] }
  | guarded key first second =>
      ((first.derive byte).map fun thread =>
          (thread.andThen (guarded key · second)).withPriority key false) ++
        match first.exit with
        | some actions => (second.derive byte).map fun thread =>
            (thread.after actions).withPriority key true
        | none => []

/-- Whether one of the residual machines may end here. -/
def final (state : List (Machine Action)) : Bool := state.any fun machine => machine.exit.isSome

/-- The ways to take a byte that yield to no other. -/
def threads (state : List (Machine Action)) (byte : UInt8) : List (Thread Action) :=
  let all := state.flatMap (derive byte)
  all.filter fun thread => !all.any thread.yields

theorem mem_threads {state : List (Machine Action)} {code : UInt8} {thread : Thread Action}
    (member : thread ∈ threads state code) : ∃ machine ∈ state, thread ∈ machine.derive code := by
  rw [threads, List.mem_filter, List.mem_flatMap] at member
  exact member.1

variable [DecidableEq Action]

/-- Take a byte: the new state and the actions in order, each once; `none` is the error
state. -/
def step (state : List (Machine Action)) (byte : UInt8) :
    Option (List (Machine Action) × List Action) :=
  match threads state byte with
  | [] => none
  | ways =>
      let inOrder := (ways.flatMap Thread.actions).insertionSort fun first second =>
        first.1 ≤ second.1
      some (distinct (ways.map Thread.rest), distinct (inOrder.map Prod.snd))

/-- What a step leaves and performs, by the ways to take the byte. -/
theorem step_spec {state next : List (Machine Action)} {code : UInt8} {actions : List Action}
    (stepped : step state code = some (next, actions)) :
    next ≠ [] ∧ (∀ machine ∈ next, ∃ thread ∈ threads state code, thread.rest = machine) ∧
      (∀ thread ∈ threads state code, thread.rest ∈ next) ∧
      ∀ action, action ∈ actions ↔
        ∃ thread ∈ threads state code, ∃ order, (order, action) ∈ thread.actions := by
  rw [step] at stepped
  split at stepped
  · cases stepped
  next ways some =>
    cases stepped
    have kept : ∀ machine, machine ∈ distinct ((threads state code).map Thread.rest) ↔
        ∃ thread ∈ threads state code, thread.rest = machine := by
      intro machine
      rw [mem_distinct, List.mem_map]
    refine ⟨?_, fun machine => (kept machine).mp,
      fun thread isThread => (kept _).mpr ⟨thread, isThread, rfl⟩, ?_⟩
    · obtain ⟨thread, isThread⟩ := List.exists_mem_of_ne_nil _ some
      exact List.ne_nil_of_mem ((kept _).mpr ⟨thread, isThread, rfl⟩)
    · intro action
      rw [mem_distinct, List.mem_map]
      constructor
      · rintro ⟨⟨order, action⟩, inOrder, rfl⟩
        rw [List.mem_insertionSort, List.mem_flatMap] at inOrder
        obtain ⟨thread, isThread, isAction⟩ := inOrder
        exact ⟨thread, isThread, order, isAction⟩
      · rintro ⟨thread, isThread, order, isAction⟩
        refine ⟨(order, action), ?_, rfl⟩
        rw [List.mem_insertionSort, List.mem_flatMap]
        exact ⟨thread, isThread, isAction⟩

/-! ## Which bytes an action is performed on -/

/-- The machine's first byte is one of those. -/
def startsIn (allowed : List (UInt8 × UInt8)) : Machine Action → Bool
  | empty => true
  | bytes ranges => (List.range 256).all fun code =>
      !inRanges ranges code.toUInt8 || inRanges allowed code.toUInt8
  | seq first second | guarded _ first second =>
      first.startsIn allowed && (first.exit.isNone || second.startsIn allowed)
  | alt left right => left.startsIn allowed && right.startsIn allowed
  | star body => body.startsIn allowed
  | entering _ _ body | leaving _ _ body | finishing _ _ body => body.startsIn allowed

/-- The action is performed on those bytes only; `follows` says that the byte after the
machine is one of them. -/
def performedOn (allowed : List (UInt8 × UInt8)) (action : Action) :
    Machine Action → Bool → Bool
  | empty, _ | bytes _, _ => true
  | seq first second, follows | guarded _ first second, follows =>
      first.performedOn allowed action
          (second.startsIn allowed && (second.exit.isNone || follows)) &&
        second.performedOn allowed action follows
  | alt left right, follows =>
      left.performedOn allowed action follows && right.performedOn allowed action follows
  | star body, follows => body.performedOn allowed action (body.startsIn allowed && follows)
  | entering _ other body, follows =>
      (other ≠ action || body.startsIn allowed && (body.exit.isNone || follows)) &&
        body.performedOn allowed action follows
  | leaving _ other body, follows =>
      (other ≠ action || follows) && body.performedOn allowed action follows
  | finishing _ other body, follows =>
      other ≠ action && body.performedOn allowed action follows

section PerformedOn

variable {allowed : List (UInt8 × UInt8)} {action : Action} {code : UInt8}

omit [DecidableEq Action] in
theorem mem_of_startsIn {machine : Machine Action} (starts : machine.startsIn allowed = true)
    {thread : Thread Action} (member : thread ∈ machine.derive code) :
    inRanges allowed code = true := by
  induction machine generalizing thread with
  | empty => cases member
  | bytes ranges =>
      rw [derive] at member
      split at member
      next accepts =>
        have here := List.all_eq_true.mp starts code.toNat
          (List.mem_range.mpr (UInt8.toNat_lt code))
        simpa [accepts] using here
      next => cases member
  | seq first second firstIH secondIH | guarded key first second firstIH secondIH =>
      rw [startsIn, Bool.and_eq_true, Bool.or_eq_true] at starts
      rw [derive, List.mem_append, List.mem_map] at member
      rcases member with ⟨inner, isInner, -⟩ | later
      · exact firstIH starts.1 isInner
      · split at later
        next actions exits =>
          obtain ⟨inner, isInner, -⟩ := List.mem_map.mp later
          rcases starts.2 with none | second
          · rw [exits] at none
            cases none
          · exact secondIH second isInner
        next => cases later
  | alt left right leftIH rightIH =>
      rw [startsIn, Bool.and_eq_true] at starts
      rw [derive, List.mem_append] at member
      rcases member with inLeft | inRight
      · exact leftIH starts.1 inLeft
      · exact rightIH starts.2 inRight
  | star body ih | entering order other body ih | leaving order other body ih
  | finishing order other body ih =>
      rw [derive, List.mem_map] at member
      obtain ⟨inner, isInner, -⟩ := member
      exact ih starts isInner

/-- An action that waits at the end of a machine is performed on the byte that follows. -/
theorem follows_of_exit {machine : Machine Action} {follows : Bool}
    (performed : machine.performedOn allowed action follows = true)
    {actions : List (Nat × Action)} (exits : machine.exit = some actions) {order : Nat}
    (member : (order, action) ∈ actions) : follows = true := by
  induction machine generalizing follows actions with
  | empty | star body =>
      cases exits
      cases member
  | bytes ranges => cases exits
  | seq first second firstIH secondIH | guarded key first second firstIH secondIH =>
      rw [performedOn, Bool.and_eq_true] at performed
      rw [exit] at exits
      split at exits
      next before after firstExits secondExits =>
        cases exits
        rcases List.mem_append.mp member with inFirst | inSecond
        · have last := firstIH performed.1 firstExits inFirst
          rw [secondExits, Option.isNone_some, Bool.false_or, Bool.and_eq_true] at last
          exact last.2
        · exact secondIH performed.2 secondExits inSecond
      next => cases exits
  | alt left right leftIH rightIH =>
      rw [performedOn, Bool.and_eq_true] at performed
      rw [exit] at exits
      split at exits
      next before after leftExits rightExits =>
        cases exits
        rcases List.mem_append.mp member with inLeft | inRight
        · exact leftIH performed.1 leftExits inLeft
        · exact rightIH performed.2 rightExits inRight
      next leftExits rightExits =>
        cases exits
        exact leftIH performed.1 leftExits member
      next leftExits rightExits =>
        cases exits
        exact rightIH performed.2 rightExits member
      next => cases exits
  | entering number other body ih =>
      rw [performedOn, Bool.and_eq_true, Bool.or_eq_true] at performed
      obtain ⟨inner, bodyExits, rfl⟩ := Option.map_eq_some_iff.mp exits
      rcases List.mem_cons.mp member with same | inBody
      · cases same
        have last : body.startsIn allowed = true ∧ follows = true := by
          simpa [bodyExits] using performed.1
        exact last.2
      · exact ih performed.2 bodyExits inBody
  | leaving number other body ih =>
      rw [performedOn, Bool.and_eq_true, Bool.or_eq_true] at performed
      obtain ⟨inner, bodyExits, rfl⟩ := Option.map_eq_some_iff.mp exits
      rcases List.mem_append.mp member with inBody | same
      · exact ih performed.2 bodyExits inBody
      · cases List.mem_singleton.mp same
        simpa using performed.1
  | finishing number other body ih =>
      rw [performedOn, Bool.and_eq_true] at performed
      exact ih performed.2 exits member

/-- The actions that wait at the end of one machine, and those of the next. -/
theorem after_performedOn {first second : Machine Action} {last : Bool}
    (performed : first.performedOn allowed action (second.startsIn allowed && last) = true)
    {actions : List (Nat × Action)} (exits : first.exit = some actions) {inner : Thread Action}
    (isInner : inner ∈ second.derive code)
    (own : ∀ order, (order, action) ∈ inner.actions → inRanges allowed code = true) :
    ∀ order, (order, action) ∈ (inner.after actions).actions → inRanges allowed code = true := by
  intro order isAction
  rcases List.mem_append.mp isAction with waiting | isOwn
  · have starts := follows_of_exit performed exits waiting
    rw [Bool.and_eq_true] at starts
    exact mem_of_startsIn starts.1 isInner
  · exact own order isOwn

/-- Each way to take a byte performs the action on an allowed byte only, and leaves a
machine that does so. -/
theorem derive_performedOn {machine : Machine Action} {follows : Bool}
    (performed : machine.performedOn allowed action follows = true) {thread : Thread Action}
    (member : thread ∈ machine.derive code) :
    thread.rest.performedOn allowed action follows = true ∧
      ∀ order, (order, action) ∈ thread.actions → inRanges allowed code = true := by
  induction machine generalizing follows thread with
  | empty => cases member
  | bytes ranges =>
      rw [derive] at member
      split at member
      · cases List.mem_singleton.mp member
        exact ⟨rfl, fun order inNil => by cases inNil⟩
      · cases member
  | seq first second firstIH secondIH =>
      rw [performedOn, Bool.and_eq_true] at performed
      rw [derive, List.mem_append, List.mem_map] at member
      rcases member with ⟨inner, isInner, rfl⟩ | later
      · obtain ⟨rest, acts⟩ := firstIH performed.1 isInner
        refine ⟨?_, acts⟩
        rw [Thread.andThen, performedOn, rest, performed.2]
        rfl
      · split at later
        next actions exits =>
          obtain ⟨inner, isInner, rfl⟩ := List.mem_map.mp later
          obtain ⟨rest, acts⟩ := secondIH performed.2 isInner
          exact ⟨rest, after_performedOn performed.1 exits isInner acts⟩
        next => cases later
  | guarded key first second firstIH secondIH =>
      rw [performedOn, Bool.and_eq_true] at performed
      rw [derive, List.mem_append, List.mem_map] at member
      rcases member with ⟨inner, isInner, rfl⟩ | later
      · obtain ⟨rest, acts⟩ := firstIH performed.1 isInner
        refine ⟨?_, acts⟩
        rw [Thread.withPriority, Thread.andThen, performedOn, rest, performed.2]
        rfl
      · split at later
        next actions exits =>
          obtain ⟨inner, isInner, rfl⟩ := List.mem_map.mp later
          obtain ⟨rest, acts⟩ := secondIH performed.2 isInner
          exact ⟨rest, after_performedOn performed.1 exits isInner acts⟩
        next => cases later
  | alt left right leftIH rightIH =>
      rw [performedOn, Bool.and_eq_true] at performed
      rw [derive, List.mem_append] at member
      rcases member with inLeft | inRight
      · exact leftIH performed.1 inLeft
      · exact rightIH performed.2 inRight
  | star body ih =>
      have whole := performed
      rw [performedOn] at performed
      rw [derive, List.mem_map] at member
      obtain ⟨inner, isInner, rfl⟩ := member
      obtain ⟨rest, acts⟩ := ih performed isInner
      refine ⟨?_, acts⟩
      rw [Thread.andThen, performedOn, whole, Bool.and_true, startsIn, exit, Option.isNone_some,
        Bool.false_or]
      exact rest
  | entering number other body ih =>
      rw [performedOn, Bool.and_eq_true, Bool.or_eq_true] at performed
      rw [derive, List.mem_map] at member
      obtain ⟨inner, isInner, rfl⟩ := member
      obtain ⟨rest, acts⟩ := ih performed.2 isInner
      refine ⟨rest, fun order isAction => ?_⟩
      rcases List.mem_append.mp isAction with same | own
      · cases List.mem_singleton.mp same
        rcases performed.1 with different | starts
        · simp at different
        · rw [Bool.and_eq_true] at starts
          exact mem_of_startsIn starts.1 isInner
      · exact acts order own
  | leaving number other body ih =>
      rw [performedOn, Bool.and_eq_true] at performed
      rw [derive, List.mem_map] at member
      obtain ⟨inner, isInner, rfl⟩ := member
      obtain ⟨rest, acts⟩ := ih performed.2 isInner
      refine ⟨?_, acts⟩
      rw [Thread.andThen, performedOn, performed.1, rest]
      rfl
  | finishing number other body ih =>
      rw [performedOn, Bool.and_eq_true] at performed
      rw [derive, List.mem_map] at member
      obtain ⟨inner, isInner, rfl⟩ := member
      obtain ⟨rest, acts⟩ := ih performed.2 isInner
      refine ⟨?_, fun order isAction => ?_⟩
      · rw [performedOn, performed.1, rest]
        rfl
      · rcases List.mem_append.mp isAction with own | last
        · exact acts order own
        · split at last
          · cases List.mem_singleton.mp last
            simp at performed
          · cases last

/-- Each machine of the state performs the action on allowed bytes only. -/
def PerformsOn (allowed : List (UInt8 × UInt8)) (action : Action) (state : List (Machine Action)) :
    Prop :=
  ∀ machine ∈ state, machine.performedOn allowed action false = true

theorem step_performsOn {state next : List (Machine Action)} {actions : List Action}
    (performs : PerformsOn allowed action state)
    (stepped : step state code = some (next, actions)) :
    PerformsOn allowed action next ∧ (action ∈ actions → inRanges allowed code = true) := by
  have kept : ∀ thread ∈ threads state code,
      thread.rest.performedOn allowed action false = true ∧
        ∀ order, (order, action) ∈ thread.actions → inRanges allowed code = true := by
    intro thread member
    obtain ⟨machine, isMachine, isThread⟩ := mem_threads member
    exact derive_performedOn (performs machine isMachine) isThread
  obtain ⟨-, left, -, performed⟩ := step_spec stepped
  constructor
  · intro machine member
    obtain ⟨thread, isThread, rfl⟩ := left machine member
    exact (kept thread isThread).1
  · intro member
    obtain ⟨thread, isThread, order, isAction⟩ := (performed action).mp member
    exact (kept thread isThread).2 order isAction

end PerformedOn

/-! ## An action that ends the machine -/

/-- The machine performs the action exactly when it may end. -/
def endsWith (action : Action) : Machine Action → Bool
  | finishing _ last body => last = action && body.performedOn [] action false
  | _ => false

def EndsWith (action : Action) (state : List (Machine Action)) : Prop :=
  ∀ machine ∈ state, machine.endsWith action = true

theorem derive_endsWith {action : Action} {machine : Machine Action} {code : UInt8}
    (ends : machine.endsWith action = true) {thread : Thread Action}
    (member : thread ∈ machine.derive code) :
    thread.rest.endsWith action = true ∧
      ((∃ order, (order, action) ∈ thread.actions) ↔ thread.rest.exit.isSome = true) := by
  cases machine with
  | finishing number last body =>
      rw [endsWith, Bool.and_eq_true, decide_eq_true_eq] at ends
      obtain ⟨rfl, nowhere⟩ := ends
      rw [derive, List.mem_map] at member
      obtain ⟨inner, isInner, rfl⟩ := member
      obtain ⟨rest, acts⟩ := derive_performedOn nowhere isInner
      have absent : ∀ order, (order, last) ∉ inner.actions := by
        intro order isAction
        have inNone := acts order isAction
        cases inNone
      constructor
      · rw [endsWith, rest]
        simp
      · rw [exit]
        constructor
        · rintro ⟨order, isAction⟩
          rcases List.mem_append.mp isAction with own | here
          · exact absurd own (absent order)
          · by_contra stays
            rw [if_neg stays] at here
            cases here
        · intro ends
          exact ⟨number, List.mem_append_right _ (by simp [ends])⟩
  | _ => cases ends

/-- A step performs the action exactly when the state it leads to may end. -/
theorem step_endsWith {action : Action} {state next : List (Machine Action)} {code : UInt8}
    {actions : List Action} (ends : EndsWith action state)
    (stepped : step state code = some (next, actions)) :
    EndsWith action next ∧ (action ∈ actions ↔ final next = true) := by
  have kept : ∀ thread ∈ threads state code, thread.rest.endsWith action = true ∧
      ((∃ order, (order, action) ∈ thread.actions) ↔ thread.rest.exit.isSome = true) := by
    intro thread member
    obtain ⟨machine, isMachine, isThread⟩ := mem_threads member
    exact derive_endsWith (ends machine isMachine) isThread
  obtain ⟨-, left, right, performed⟩ := step_spec stepped
  constructor
  · intro machine member
    obtain ⟨thread, isThread, rfl⟩ := left machine member
    exact (kept thread isThread).1
  · rw [performed, final, List.any_eq_true]
    constructor
    · rintro ⟨thread, isThread, isAction⟩
      exact ⟨thread.rest, right thread isThread, (kept thread isThread).2.mp isAction⟩
    · rintro ⟨machine, member, stops⟩
      obtain ⟨thread, isThread, rfl⟩ := left machine member
      exact ⟨thread, isThread, (kept thread isThread).2.mpr stops⟩

end Machine

end Library
