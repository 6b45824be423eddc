import Exhy.Library.Scanner

/-!
# Positions of a machine

A residual machine is a position of the machine it comes from, and bytes lead to it.  With
the positions a check of the machine says what holds wherever a run can be: which actions the
next byte may bring, and that an action comes before another.
-/

namespace Library.Machine

universe u

variable {Action : Type u}

/-! ## The ways into a concatenation -/

section Ways

variable {first second : Machine Action} {code : UInt8} {thread : Thread Action}

/-- A way through the first part, or through the second one with what the first part waits
with; `join` puts the second part behind what is left of the first one. -/
def Joins (join : Machine Action → Machine Action) (first second : Machine Action)
    (code : UInt8) (thread : Thread Action) : Prop :=
  (∃ inner ∈ first.derive code,
      thread.rest = join inner.rest ∧ thread.actions = inner.actions) ∨
    ∃ actions, first.exit = some actions ∧ ∃ inner ∈ second.derive code,
      thread.rest = inner.rest ∧ thread.actions = actions ++ inner.actions

theorem joins_of_seq (member : thread ∈ (seq first second).derive code) :
    Joins (seq · second) first second code thread := by
  rw [derive, List.mem_append, List.mem_map] at member
  rcases member with ⟨inner, isInner, rfl⟩ | later
  · exact .inl ⟨inner, isInner, rfl, rfl⟩
  · split at later
    next actions exits =>
      obtain ⟨inner, isInner, rfl⟩ := List.mem_map.mp later
      exact .inr ⟨actions, exits, inner, isInner, rfl, rfl⟩
    next => cases later

theorem joins_of_guarded {key : Nat} (member : thread ∈ (guarded key first second).derive code) :
    Joins (guarded key · second) first second code thread := by
  rw [derive, List.mem_append, List.mem_map] at member
  rcases member with ⟨inner, isInner, rfl⟩ | later
  · exact .inl ⟨inner, isInner, rfl, rfl⟩
  · split at later
    next actions exits =>
      obtain ⟨inner, isInner, rfl⟩ := List.mem_map.mp later
      exact .inr ⟨actions, exits, inner, isInner, rfl, rfl⟩
    next => cases later

/-- What a concatenation waits with has waited in both parts. -/
theorem exit_seq {actions : List (Nat × Action)} (exits : (seq first second).exit = some actions) :
    ∃ before after, first.exit = some before ∧ second.exit = some after ∧
      actions = before ++ after := by
  rw [exit] at exits
  split at exits
  next before after isFirst isSecond =>
    exact ⟨before, after, isFirst, isSecond, (Option.some.inj exits).symm⟩
  next => cases exits

/-- What an alternative waits with: all of what one side waits with, or of both. -/
theorem exit_alt {left right : Machine Action} {actions : List (Nat × Action)}
    (exits : (alt left right).exit = some actions) :
    (∃ side, (left.exit = some side ∨ right.exit = some side) ∧ side ⊆ actions) ∧
      ∀ item ∈ actions, ∃ side, (left.exit = some side ∨ right.exit = some side) ∧
        side ⊆ actions ∧ item ∈ side := by
  rw [exit] at exits
  split at exits
  next before after isLeft isRight =>
    cases exits
    have inLeft : before ⊆ before ++ after := List.subset_append_left _ _
    have inRight : after ⊆ before ++ after := List.subset_append_right _ _
    constructor
    · exact ⟨before, .inl isLeft, inLeft⟩
    · intro item member
      rcases List.mem_append.mp member with early | late
      · exact ⟨before, .inl isLeft, inLeft, early⟩
      · exact ⟨after, .inr isRight, inRight, late⟩
  next own isLeft isRight =>
    cases exits
    have whole : actions ⊆ actions := List.Subset.refl _
    exact ⟨⟨_, .inl isLeft, whole⟩, fun item member => ⟨_, .inl isLeft, whole, member⟩⟩
  next own isLeft isRight =>
    cases exits
    have whole : actions ⊆ actions := List.Subset.refl _
    exact ⟨⟨_, .inr isRight, whole⟩, fun item member => ⟨_, .inr isRight, whole, member⟩⟩
  next => cases exits

end Ways

/-! ## The residual machines -/

/-- The residual machines of every run, each with the bytes that lead to it. -/
def positions : Machine Action → List (List (UInt8 × UInt8) × Machine Action)
  | empty => []
  | bytes ranges => [(ranges, empty)]
  | seq first second =>
      first.positions.map (fun place => (place.1, seq place.2 second)) ++ second.positions
  | guarded key first second =>
      first.positions.map (fun place => (place.1, guarded key place.2 second)) ++ second.positions
  | alt left right => left.positions ++ right.positions
  | star body => body.positions.map fun place => (place.1, seq place.2 (star body))
  | entering _ _ body => body.positions
  | leaving order action body =>
      body.positions.map fun place => (place.1, leaving order action place.2)
  | finishing order action body =>
      body.positions.map fun place => (place.1, finishing order action place.2)

section Joined

variable {join : Machine Action → Machine Action} {first second : Machine Action} {code : UInt8}
  {thread : Thread Action}

theorem Joins.positions (joins : Joins join first second code thread)
    (firstIH : ∀ {inner : Thread Action}, inner ∈ first.derive code →
      ∃ ranges, (ranges, inner.rest) ∈ first.positions ∧ inRanges ranges code = true)
    (secondIH : ∀ {inner : Thread Action}, inner ∈ second.derive code →
      ∃ ranges, (ranges, inner.rest) ∈ second.positions ∧ inRanges ranges code = true) :
    ∃ ranges, (ranges, thread.rest) ∈
        first.positions.map (fun place => (place.1, join place.2)) ++ second.positions ∧
      inRanges ranges code = true := by
  rcases joins with ⟨inner, isInner, rest, -⟩ | ⟨-, -, inner, isInner, rest, -⟩
  · obtain ⟨ranges, isPlace, takes⟩ := firstIH isInner
    rw [rest]
    exact ⟨ranges, List.mem_append_left _ (List.mem_map.mpr ⟨_, isPlace, rfl⟩), takes⟩
  · obtain ⟨ranges, isPlace, takes⟩ := secondIH isInner
    rw [rest]
    exact ⟨ranges, List.mem_append_right _ isPlace, takes⟩

end Joined

theorem positions_of_derive {machine : Machine Action} {code : UInt8} {thread : Thread Action}
    (member : thread ∈ machine.derive code) :
    ∃ ranges, (ranges, thread.rest) ∈ machine.positions ∧ inRanges ranges code = true := by
  induction machine generalizing thread with
  | empty => cases member
  | bytes ranges =>
      rw [derive] at member
      split at member
      next takes =>
        cases List.mem_singleton.mp member
        exact ⟨ranges, List.mem_singleton_self _, takes⟩
      next => cases member
  | seq first second firstIH secondIH => exact (joins_of_seq member).positions firstIH secondIH
  | guarded key first second firstIH secondIH =>
      exact (joins_of_guarded member).positions firstIH secondIH
  | alt left right leftIH rightIH =>
      rw [derive, List.mem_append] at member
      rcases member with inLeft | inRight
      · obtain ⟨ranges, isPlace, takes⟩ := leftIH inLeft
        exact ⟨ranges, List.mem_append_left _ isPlace, takes⟩
      · obtain ⟨ranges, isPlace, takes⟩ := rightIH inRight
        exact ⟨ranges, List.mem_append_right _ isPlace, takes⟩
  | star body ih | leaving order action body ih | finishing order action body ih =>
      rw [derive, List.mem_map] at member
      obtain ⟨inner, isInner, rfl⟩ := member
      obtain ⟨ranges, isPlace, takes⟩ := ih isInner
      exact ⟨ranges, List.mem_map.mpr ⟨_, isPlace, rfl⟩, takes⟩
  | entering order action body ih =>
      rw [derive, List.mem_map] at member
      obtain ⟨inner, isInner, rfl⟩ := member
      obtain ⟨ranges, isPlace, takes⟩ := ih isInner
      exact ⟨ranges, isPlace, takes⟩

/-- A position of a position is one of the machine. -/
theorem positions_closed {machine rest : Machine Action} {ranges : List (UInt8 × UInt8)}
    (member : (ranges, rest) ∈ machine.positions) : rest.positions ⊆ machine.positions := by
  induction machine generalizing rest with
  | empty => cases member
  | bytes own =>
      cases List.mem_singleton.mp member
      exact List.nil_subset _
  | seq first second firstIH secondIH | guarded key first second firstIH secondIH =>
      rcases List.mem_append.mp member with inFirst | inSecond
      · obtain ⟨place, isPlace, same⟩ := List.mem_map.mp inFirst
        cases same
        apply List.append_subset.mpr
        constructor
        · exact fun other isOther =>
            List.mem_append_left _ (List.map_subset _ (firstIH isPlace) isOther)
        · exact List.subset_append_right _ _
      · exact fun other isOther => List.mem_append_right _ (secondIH inSecond isOther)
  | alt left right leftIH rightIH =>
      rcases List.mem_append.mp member with inLeft | inRight
      · exact fun other isOther => List.mem_append_left _ (leftIH inLeft isOther)
      · exact fun other isOther => List.mem_append_right _ (rightIH inRight isOther)
  | star body ih =>
      obtain ⟨place, isPlace, same⟩ := List.mem_map.mp member
      cases same
      apply List.append_subset.mpr
      exact ⟨List.map_subset _ (ih isPlace), List.Subset.refl _⟩
  | entering order action body ih => exact ih member
  | leaving order action body ih | finishing order action body ih =>
      obtain ⟨place, isPlace, same⟩ := List.mem_map.mp member
      cases same
      exact List.map_subset _ (ih isPlace)

/-- No byte is in both. -/
def apart (first second : List (UInt8 × UInt8)) : Bool :=
  (List.range 256).all fun code =>
    !(inRanges first code.toUInt8 && inRanges second code.toUInt8)

theorem not_inRanges_of_apart {first second : List (UInt8 × UInt8)} {code : UInt8}
    (areApart : apart first second = true) (inFirst : inRanges first code = true) :
    inRanges second code = false := by
  have here := List.all_eq_true.mp areApart code.toNat (List.mem_range.mpr (UInt8.toNat_lt code))
  simpa [inFirst] using here

/-- The state is the start, or a byte has led to positions of it. -/
def Comes (start : Machine Action) (last : Option UInt8) (state : List (Machine Action)) : Prop :=
  ∀ machine ∈ state,
    match last with
    | none => machine = start
    | some code => ∃ ranges, (ranges, machine) ∈ start.positions ∧ inRanges ranges code = true

theorem step_comes [DecidableEq Action] {start : Machine Action} {last : Option UInt8}
    {state next : List (Machine Action)} {code : UInt8} {actions : List Action}
    (comes : Comes start last state) (stepped : step state code = some (next, actions)) :
    Comes start (some code) next := by
  intro machine member
  obtain ⟨-, left, -, -⟩ := step_spec stepped
  obtain ⟨thread, isThread, rfl⟩ := left machine member
  obtain ⟨source, isSource, derived⟩ := mem_threads isThread
  obtain ⟨ranges, isPlace, takes⟩ := positions_of_derive derived
  have from_ := comes source isSource
  refine ⟨ranges, ?_, takes⟩
  cases last with
  | none => exact from_ ▸ isPlace
  | some before =>
      obtain ⟨_, isSourcePlace, -⟩ := from_
      exact positions_closed isSourcePlace isPlace

/-! ## What the next byte may bring -/

section Actions

variable [DecidableEq Action]

/-- The next byte may bring the action. -/
def brings (action : Action) : Machine Action → Bool
  | empty | bytes _ => false
  | seq first second | guarded _ first second =>
      first.brings action ||
        match first.exit with
        | some actions => actions.any (·.2 = action) || second.brings action
        | none => false
  | alt left right => left.brings action || right.brings action
  | star body | leaving _ _ body => body.brings action
  | entering _ other body | finishing _ other body => other = action || body.brings action

theorem Joins.brings {join : Machine Action → Machine Action} {first second : Machine Action}
    {code : UInt8} {thread : Thread Action} {action : Action} {order : Nat}
    (joins : Joins join first second code thread)
    (firstIH : ∀ {inner : Thread Action}, inner ∈ first.derive code →
      (order, action) ∈ inner.actions → first.brings action = true)
    (secondIH : ∀ {inner : Thread Action}, inner ∈ second.derive code →
      (order, action) ∈ inner.actions → second.brings action = true)
    (isAction : (order, action) ∈ thread.actions) :
    (seq first second).brings action = true := by
  rw [Machine.brings, Bool.or_eq_true]
  rcases joins with ⟨inner, isInner, -, same⟩ | ⟨actions, exits, inner, isInner, -, same⟩
  · exact .inl (firstIH isInner (same ▸ isAction))
  · right
    rw [exits, Bool.or_eq_true]
    rcases List.mem_append.mp (same ▸ isAction) with waited | own
    · exact .inl (List.any_eq_true.mpr ⟨_, waited, decide_eq_true rfl⟩)
    · exact .inr (secondIH isInner own)

theorem brings_of_derive {action : Action} {machine : Machine Action} {code : UInt8}
    {thread : Thread Action} (member : thread ∈ machine.derive code) {order : Nat}
    (isAction : (order, action) ∈ thread.actions) : machine.brings action = true := by
  induction machine generalizing thread with
  | empty => cases member
  | bytes ranges =>
      rw [derive] at member
      split at member
      · cases List.mem_singleton.mp member
        cases isAction
      · cases member
  | seq first second firstIH secondIH =>
      exact (joins_of_seq member).brings firstIH secondIH isAction
  | guarded key first second firstIH secondIH =>
      exact (joins_of_guarded member).brings firstIH secondIH isAction
  | alt left right leftIH rightIH =>
      rw [brings, Bool.or_eq_true]
      rw [derive, List.mem_append] at member
      rcases member with inLeft | inRight
      · exact .inl (leftIH inLeft isAction)
      · exact .inr (rightIH inRight isAction)
  | star body ih | leaving number other body ih =>
      rw [derive, List.mem_map] at member
      obtain ⟨inner, isInner, rfl⟩ := member
      exact ih isInner isAction
  | entering number other body ih =>
      rw [brings, Bool.or_eq_true]
      rw [derive, List.mem_map] at member
      obtain ⟨inner, isInner, rfl⟩ := member
      rcases List.mem_append.mp isAction with here | own
      · cases List.mem_singleton.mp here
        exact .inl (decide_eq_true rfl)
      · exact .inr (ih isInner own)
  | finishing number other body ih =>
      rw [brings, Bool.or_eq_true]
      rw [derive, List.mem_map] at member
      obtain ⟨inner, isInner, rfl⟩ := member
      rcases List.mem_append.mp isAction with own | here
      · exact .inr (ih isInner own)
      · split at here
        · cases List.mem_singleton.mp here
          exact .inl (decide_eq_true rfl)
        · cases here

/-! ## An action before another -/

/-- No run ends the machine without the action. -/
def passes (action : Action) : Machine Action → Bool
  | empty | bytes _ | star _ => false
  | seq first second | guarded _ first second => first.passes action || second.passes action
  | alt left right => left.passes action && right.passes action
  | entering _ other body | leaving _ other body => other = action || body.passes action
  | finishing _ _ body => body.passes action

/-- No run performs the last action without the other one before. -/
def owes (action last : Action) : Machine Action → Bool
  | empty | bytes _ => true
  | seq first second | guarded _ first second =>
      first.owes action last && (first.passes action || second.owes action last)
  | alt left right => left.owes action last && right.owes action last
  | star body => body.owes action last
  | entering _ other body => other = action || other ≠ last && body.owes action last
  | leaving _ other body => body.owes action last && (other ≠ last || body.passes action)
  | finishing _ other body => other ≠ last && body.owes action last

variable {action last : Action} {code : UInt8}

theorem exit_passes {machine : Machine Action} (passes : machine.passes action = true)
    {actions : List (Nat × Action)} (exits : machine.exit = some actions) :
    ∃ order, (order, action) ∈ actions := by
  induction machine generalizing actions with
  | empty | bytes ranges | star body => cases passes
  | seq first second firstIH secondIH | guarded key first second firstIH secondIH =>
      obtain ⟨before, after, isFirst, isSecond, rfl⟩ := exit_seq exits
      rw [Machine.passes, Bool.or_eq_true] at passes
      rcases passes with early | late
      · obtain ⟨order, isAction⟩ := firstIH early isFirst
        exact ⟨order, List.mem_append_left _ isAction⟩
      · obtain ⟨order, isAction⟩ := secondIH late isSecond
        exact ⟨order, List.mem_append_right _ isAction⟩
  | alt left right leftIH rightIH =>
      rw [Machine.passes, Bool.and_eq_true] at passes
      obtain ⟨side, isSide, within⟩ := (exit_alt exits).1
      rcases isSide with isLeft | isRight
      · obtain ⟨order, isAction⟩ := leftIH passes.1 isLeft
        exact ⟨order, within isAction⟩
      · obtain ⟨order, isAction⟩ := rightIH passes.2 isRight
        exact ⟨order, within isAction⟩
  | entering number other body ih =>
      rw [exit, Option.map_eq_some_iff] at exits
      obtain ⟨inner, isInner, rfl⟩ := exits
      rw [Machine.passes, Bool.or_eq_true, decide_eq_true_eq] at passes
      rcases passes with rfl | within
      · exact ⟨number, List.mem_cons_self⟩
      · obtain ⟨order, isAction⟩ := ih within isInner
        exact ⟨order, List.mem_cons_of_mem _ isAction⟩
  | leaving number other body ih =>
      rw [exit, Option.map_eq_some_iff] at exits
      obtain ⟨inner, isInner, rfl⟩ := exits
      rw [Machine.passes, Bool.or_eq_true, decide_eq_true_eq] at passes
      rcases passes with rfl | within
      · exact ⟨number, List.mem_append_right _ List.mem_cons_self⟩
      · obtain ⟨order, isAction⟩ := ih within isInner
        exact ⟨order, List.mem_append_left _ isAction⟩
  | finishing number other body ih => exact ih passes exits

theorem Joins.passes {join : Machine Action → Machine Action} {first second : Machine Action}
    {thread : Thread Action} (joins : Joins join first second code thread)
    (joined : ∀ rest, (join rest).passes action = (seq rest second).passes action)
    (passes : (seq first second).passes action = true)
    (firstIH : first.passes action = true → ∀ {inner : Thread Action}, inner ∈ first.derive code →
      (∃ order, (order, action) ∈ inner.actions) ∨ inner.rest.passes action = true)
    (secondIH : second.passes action = true → ∀ {inner : Thread Action},
      inner ∈ second.derive code →
        (∃ order, (order, action) ∈ inner.actions) ∨ inner.rest.passes action = true) :
    (∃ order, (order, action) ∈ thread.actions) ∨ thread.rest.passes action = true := by
  rw [Machine.passes, Bool.or_eq_true] at passes
  rcases joins with ⟨inner, isInner, rest, same⟩ | ⟨actions, exits, inner, isInner, rest, same⟩
  · rw [rest, same, joined, Machine.passes, Bool.or_eq_true]
    rcases passes with early | late
    · exact (firstIH early isInner).imp_right .inl
    · exact .inr (.inr late)
  · rw [rest, same]
    rcases passes with early | late
    · obtain ⟨order, isAction⟩ := exit_passes early exits
      exact .inl ⟨order, List.mem_append_left _ isAction⟩
    · apply (secondIH late isInner).imp_left
      exact fun ⟨order, isAction⟩ => ⟨order, List.mem_append_right _ isAction⟩

theorem derive_passes {machine : Machine Action} (passes : machine.passes action = true)
    {thread : Thread Action} (member : thread ∈ machine.derive code) :
    (∃ order, (order, action) ∈ thread.actions) ∨ thread.rest.passes action = true := by
  induction machine generalizing thread with
  | empty | bytes ranges | star body => cases passes
  | seq first second firstIH secondIH =>
      exact (joins_of_seq member).passes (fun _ => rfl) passes firstIH secondIH
  | guarded key first second firstIH secondIH =>
      exact (joins_of_guarded member).passes (fun _ => rfl) passes firstIH secondIH
  | alt left right leftIH rightIH =>
      rw [Machine.passes, Bool.and_eq_true] at passes
      rw [derive, List.mem_append] at member
      rcases member with inLeft | inRight
      · exact leftIH passes.1 inLeft
      · exact rightIH passes.2 inRight
  | entering number other body ih =>
      rw [derive, List.mem_map] at member
      obtain ⟨inner, isInner, rfl⟩ := member
      rw [Machine.passes, Bool.or_eq_true, decide_eq_true_eq] at passes
      rcases passes with rfl | within
      · exact .inl ⟨number, List.mem_cons_self⟩
      · apply (ih within isInner).imp_left
        rintro ⟨order, isAction⟩
        exact ⟨order, List.mem_cons_of_mem _ isAction⟩
  | leaving number other body ih =>
      rw [derive, List.mem_map] at member
      obtain ⟨inner, isInner, rfl⟩ := member
      rw [Machine.passes, Bool.or_eq_true, decide_eq_true_eq] at passes
      rw [Thread.andThen, Machine.passes, Bool.or_eq_true, decide_eq_true_eq]
      rcases passes with same | within
      · exact .inr (.inl same)
      · exact (ih within isInner).imp_right .inr
  | finishing number other body ih =>
      rw [derive, List.mem_map] at member
      obtain ⟨inner, isInner, rfl⟩ := member
      apply (ih passes isInner).imp_left
      rintro ⟨order, isAction⟩
      exact ⟨order, List.mem_append_left _ isAction⟩

theorem exit_owes {machine : Machine Action} (owes : machine.owes action last = true)
    {actions : List (Nat × Action)} (exits : machine.exit = some actions) {order : Nat}
    (isLast : (order, last) ∈ actions) : ∃ order, (order, action) ∈ actions := by
  induction machine generalizing actions with
  | empty =>
      cases exits
      cases isLast
  | bytes ranges => cases exits
  | star body =>
      cases exits
      cases isLast
  | seq first second firstIH secondIH | guarded key first second firstIH secondIH =>
      obtain ⟨before, after, isFirst, isSecond, rfl⟩ := exit_seq exits
      rw [Machine.owes, Bool.and_eq_true, Bool.or_eq_true] at owes
      have early : (∃ order, (order, action) ∈ before) →
          ∃ order, (order, action) ∈ before ++ after :=
        fun ⟨order, isAction⟩ => ⟨order, List.mem_append_left _ isAction⟩
      rcases List.mem_append.mp isLast with inFirst | inSecond
      · exact early (firstIH owes.1 isFirst inFirst)
      · rcases owes.2 with passes | later
        · exact early (exit_passes passes isFirst)
        · obtain ⟨order, isAction⟩ := secondIH later isSecond inSecond
          exact ⟨order, List.mem_append_right _ isAction⟩
  | alt left right leftIH rightIH =>
      rw [Machine.owes, Bool.and_eq_true] at owes
      obtain ⟨side, isSide, within, inSide⟩ := (exit_alt exits).2 _ isLast
      rcases isSide with isLeft | isRight
      · obtain ⟨order, isAction⟩ := leftIH owes.1 isLeft inSide
        exact ⟨order, within isAction⟩
      · obtain ⟨order, isAction⟩ := rightIH owes.2 isRight inSide
        exact ⟨order, within isAction⟩
  | entering number other body ih =>
      rw [exit, Option.map_eq_some_iff] at exits
      obtain ⟨inner, isInner, rfl⟩ := exits
      rw [Machine.owes, Bool.or_eq_true, decide_eq_true_eq, Bool.and_eq_true] at owes
      rcases owes with rfl | ⟨different, within⟩
      · exact ⟨number, List.mem_cons_self⟩
      · rcases List.mem_cons.mp isLast with same | own
        · cases same
          simp at different
        · obtain ⟨order, isAction⟩ := ih within isInner own
          exact ⟨order, List.mem_cons_of_mem _ isAction⟩
  | leaving number other body ih =>
      rw [exit, Option.map_eq_some_iff] at exits
      obtain ⟨inner, isInner, rfl⟩ := exits
      rw [Machine.owes, Bool.and_eq_true, Bool.or_eq_true] at owes
      have early : (∃ order, (order, action) ∈ inner) →
          ∃ order, (order, action) ∈ inner ++ [(number, other)] :=
        fun ⟨order, isAction⟩ => ⟨order, List.mem_append_left _ isAction⟩
      rcases List.mem_append.mp isLast with own | here
      · exact early (ih owes.1 isInner own)
      · cases List.mem_singleton.mp here
        rcases owes.2 with different | passes
        · simp at different
        · exact early (exit_passes passes isInner)
  | finishing number other body ih =>
      rw [Machine.owes, Bool.and_eq_true] at owes
      exact ih owes.2 exits isLast

theorem Joins.owes {join : Machine Action → Machine Action} {first second : Machine Action}
    {thread : Thread Action} (joins : Joins join first second code thread)
    (joined : ∀ rest, (join rest).owes action last = (seq rest second).owes action last)
    (owes : (seq first second).owes action last = true)
    (firstIH : first.owes action last = true → ∀ {inner : Thread Action},
      inner ∈ first.derive code → (∃ order, (order, action) ∈ inner.actions) ∨
        (∀ order, (order, last) ∉ inner.actions) ∧ inner.rest.owes action last = true)
    (secondIH : second.owes action last = true → ∀ {inner : Thread Action},
      inner ∈ second.derive code → (∃ order, (order, action) ∈ inner.actions) ∨
        (∀ order, (order, last) ∉ inner.actions) ∧ inner.rest.owes action last = true) :
    (∃ order, (order, action) ∈ thread.actions) ∨
      (∀ order, (order, last) ∉ thread.actions) ∧ thread.rest.owes action last = true := by
  rw [Machine.owes, Bool.and_eq_true, Bool.or_eq_true] at owes
  rcases joins with ⟨inner, isInner, rest, same⟩ | ⟨actions, exits, inner, isInner, rest, same⟩
  · rw [rest, same, joined, Machine.owes, Bool.and_eq_true, Bool.or_eq_true]
    rcases firstIH owes.1 isInner with now | ⟨absent, still⟩
    · exact .inl now
    · rcases owes.2 with passes | later
      · rcases derive_passes passes isInner with now | passes
        · exact .inl now
        · exact .inr ⟨absent, still, .inl passes⟩
      · exact .inr ⟨absent, still, .inr later⟩
  · rw [rest, same]
    have early : (∃ order, (order, action) ∈ actions) →
        ∃ order, (order, action) ∈ actions ++ inner.actions :=
      fun ⟨order, isAction⟩ => ⟨order, List.mem_append_left _ isAction⟩
    rcases owes.2 with passes | later
    · exact .inl (early (exit_passes passes exits))
    · rcases secondIH later isInner with ⟨order, now⟩ | ⟨absent, still⟩
      · exact .inl ⟨order, List.mem_append_right _ now⟩
      · by_cases waited : ∃ order, (order, last) ∈ actions
        · obtain ⟨order, isLast⟩ := waited
          exact .inl (early (exit_owes owes.1 exits isLast))
        · refine .inr ⟨fun order isLast => ?_, still⟩
          rcases List.mem_append.mp isLast with before | own
          · exact waited ⟨order, before⟩
          · exact absent order own

/-- A way to take a byte that does not bring the action does not bring the last one, and
leaves it behind the action. -/
theorem derive_owes {machine : Machine Action} (owes : machine.owes action last = true)
    {thread : Thread Action} (member : thread ∈ machine.derive code) :
    (∃ order, (order, action) ∈ thread.actions) ∨
      (∀ order, (order, last) ∉ thread.actions) ∧ thread.rest.owes action last = true := by
  induction machine generalizing thread with
  | empty => cases member
  | bytes ranges =>
      rw [derive] at member
      split at member
      · cases List.mem_singleton.mp member
        exact .inr ⟨fun order => List.not_mem_nil, rfl⟩
      · cases member
  | seq first second firstIH secondIH =>
      exact (joins_of_seq member).owes (fun _ => rfl) owes firstIH secondIH
  | guarded key first second firstIH secondIH =>
      exact (joins_of_guarded member).owes (fun _ => rfl) owes firstIH secondIH
  | alt left right leftIH rightIH =>
      rw [Machine.owes, Bool.and_eq_true] at owes
      rw [derive, List.mem_append] at member
      rcases member with inLeft | inRight
      · exact leftIH owes.1 inLeft
      · exact rightIH owes.2 inRight
  | star body ih =>
      rw [derive, List.mem_map] at member
      obtain ⟨inner, isInner, rfl⟩ := member
      apply (ih owes isInner).imp_right
      rintro ⟨absent, still⟩
      refine ⟨absent, ?_⟩
      rw [Thread.andThen, Machine.owes, still, Machine.owes, show body.owes action last = true from owes,
        Bool.or_true]
      rfl
  | entering number other body ih =>
      rw [derive, List.mem_map] at member
      obtain ⟨inner, isInner, rfl⟩ := member
      rw [Machine.owes, Bool.or_eq_true, decide_eq_true_eq, Bool.and_eq_true] at owes
      rcases owes with rfl | ⟨different, within⟩
      · exact .inl ⟨number, List.mem_cons_self⟩
      · rcases ih within isInner with ⟨order, now⟩ | ⟨absent, still⟩
        · exact .inl ⟨order, List.mem_cons_of_mem _ now⟩
        · refine .inr ⟨fun order isLast => ?_, still⟩
          rcases List.mem_cons.mp isLast with same | own
          · cases same
            simp at different
          · exact absent order own
  | leaving number other body ih =>
      rw [derive, List.mem_map] at member
      obtain ⟨inner, isInner, rfl⟩ := member
      rw [Machine.owes, Bool.and_eq_true, Bool.or_eq_true] at owes
      rw [Thread.andThen, Machine.owes, Bool.and_eq_true, Bool.or_eq_true]
      rcases ih owes.1 isInner with now | ⟨absent, still⟩
      · exact .inl now
      · rcases owes.2 with different | passes
        · exact .inr ⟨absent, still, .inl different⟩
        · rcases derive_passes passes isInner with now | passes
          · exact .inl now
          · exact .inr ⟨absent, still, .inr passes⟩
  | finishing number other body ih =>
      rw [derive, List.mem_map] at member
      obtain ⟨inner, isInner, rfl⟩ := member
      rw [Machine.owes, Bool.and_eq_true] at owes
      rcases ih owes.2 isInner with ⟨order, now⟩ | ⟨absent, still⟩
      · exact .inl ⟨order, List.mem_append_left _ now⟩
      · refine .inr ⟨fun order isLast => ?_, ?_⟩
        · rcases List.mem_append.mp isLast with own | here
          · exact absent order own
          · split at here
            · cases List.mem_singleton.mp here
              simp at owes
            · cases here
        · rw [Machine.owes, owes.1, still]
          rfl

/-! ## Steps that owe an action -/

section Steps

variable {state next : List (Machine Action)} {actions : List Action}
  {blanks : List (UInt8 × UInt8)}

/-- Each machine of the state owes the action, or goes on with other bytes only. -/
def Owing (blanks : List (UInt8 × UInt8)) (action last : Action) (state : List (Machine Action)) :
    Prop :=
  ∀ machine ∈ state, machine.owes action last = true ∨ machine.startsIn blanks = true

theorem step_owing (owing : Owing blanks action last state) (other : inRanges blanks code = false)
    (stepped : step state code = some (next, actions)) :
    action ∈ actions ∨ last ∉ actions ∧ ∀ machine ∈ next, machine.owes action last = true := by
  obtain ⟨-, left, -, performed⟩ := step_spec stepped
  by_cases now : action ∈ actions
  · exact .inl now
  · have kept : ∀ thread ∈ threads state code,
        (∀ order, (order, last) ∉ thread.actions) ∧ thread.rest.owes action last = true := by
      intro thread isThread
      obtain ⟨machine, isMachine, derived⟩ := mem_threads isThread
      rcases owing machine isMachine with owes | starts
      · rcases derive_owes owes derived with ⟨order, isAction⟩ | kept
        · exact absurd ((performed action).mpr ⟨thread, isThread, order, isAction⟩) now
        · exact kept
      · rw [mem_of_startsIn starts derived] at other
        cases other
    right
    constructor
    · intro isLast
      obtain ⟨thread, isThread, order, isAction⟩ := (performed last).mp isLast
      exact (kept thread isThread).1 order isAction
    · intro machine member
      obtain ⟨thread, isThread, rfl⟩ := left machine member
      exact (kept thread isThread).2

/-- Whatever is left of the machine behind the byte owes the action or goes on with other
bytes only. -/
def owesBehind (code : UInt8) (blanks : List (UInt8 × UInt8)) (action last : Action)
    (machine : Machine Action) : Bool :=
  (machine.derive code).all fun thread =>
    (machine.derive code).any thread.yields || thread.rest.owes action last ||
      thread.rest.startsIn blanks

omit [DecidableEq Action] in
theorem yields_of_mem_threads {thread : Thread Action} (member : thread ∈ threads state code)
    {machine : Machine Action} (isMachine : machine ∈ state) :
    (machine.derive code).any thread.yields = false := by
  rw [threads, List.mem_filter, Bool.not_eq_true'] at member
  rw [List.any_eq_false] at member ⊢
  intro other derived
  exact member.2 other (List.mem_flatMap.mpr ⟨machine, isMachine, derived⟩)

theorem step_owesBehind
    (behind : ∀ machine ∈ state, machine.owesBehind code blanks action last = true)
    (stepped : step state code = some (next, actions)) : Owing blanks action last next := by
  obtain ⟨-, left, -, -⟩ := step_spec stepped
  intro machine member
  obtain ⟨thread, isThread, rfl⟩ := left machine member
  obtain ⟨source, isSource, derived⟩ := mem_threads isThread
  have checked := List.all_eq_true.mp (behind source isSource) thread derived
  rwa [yields_of_mem_threads isThread isSource, Bool.false_or, Bool.or_eq_true] at checked

theorem step_brings (stepped : step state code = some (next, actions)) (member : action ∈ actions) :
    ∃ machine ∈ state, machine.brings action = true := by
  obtain ⟨-, -, -, performed⟩ := step_spec stepped
  obtain ⟨thread, isThread, order, isAction⟩ := (performed action).mp member
  obtain ⟨machine, isMachine, derived⟩ := mem_threads isThread
  exact ⟨machine, isMachine, brings_of_derive derived isAction⟩

end Steps

end Actions

end Library.Machine
