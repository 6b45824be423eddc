import Exhy.Library.Executor

/-!
# What a machine performs on a text

The actions of each byte of a text, apart from what they do.  Bytes that no part of a machine
tells apart have the same actions.
-/

namespace Library.Machine

universe u v

variable {Action : Type u} [DecidableEq Action]

/-- The actions of each byte, and the state of the machine behind the text. -/
def trace (cs : List (Machine Action)) :
    List UInt8 → Option (List (List Action) × List (Machine Action))
  | [] => some ([], cs)
  | byte :: rest =>
      match step cs byte with
      | none => none
      | some (next, actions) => (trace next rest).map fun later => (actions :: later.1, later.2)

section Trace

variable {cs mid last : List (Machine Action)} {text : List UInt8} {first second : List (List Action)}

theorem trace_cons {byte : UInt8} {actions : List Action}
    (stepped : step cs byte = some (mid, actions)) (traced : trace mid text = some (first, last)) :
    trace cs (byte :: text) = some (actions :: first, last) := by
  rw [trace, stepped]
  dsimp only
  rw [traced, Option.map_some]

theorem trace_append {more : List UInt8} (before : trace cs text = some (first, mid))
    (behind : trace mid more = some (second, last)) :
    trace cs (text ++ more) = some (first ++ second, last) := by
  induction text generalizing cs first with
  | nil =>
      cases before
      exact behind
  | cons byte rest ih =>
      rw [trace] at before
      cases stepped : step cs byte with
      | none =>
          rw [stepped] at before
          cases before
      | some moved =>
          rw [stepped] at before
          obtain ⟨⟨later, state⟩, traced, same⟩ := Option.map_eq_some_iff.mp before
          cases same
          exact trace_cons stepped (ih traced)

theorem walk_append (cs : List (Machine Action)) (first second : List UInt8) :
    walk cs (first ++ second) = walk (walk cs first) second := by
  induction first generalizing cs with
  | nil => rfl
  | cons byte rest ih =>
      rw [List.cons_append, walk, walk]
      split
      next =>
        cases second with
        | nil => rfl
        | cons code more => rfl
      next next actions stepped => exact ih next

theorem walk_of_trace {actions : List (List Action)} (traced : trace cs text = some (actions, last)) :
    walk cs text = last := by
  induction text generalizing cs actions with
  | nil =>
      cases traced
      rfl
  | cons byte rest ih =>
      rw [trace] at traced
      cases stepped : step cs byte with
      | none =>
          rw [stepped] at traced
          cases traced
      | some moved =>
          rw [stepped] at traced
          obtain ⟨⟨later, state⟩, onward, same⟩ := Option.map_eq_some_iff.mp traced
          cases same
          rw [walk, stepped]
          exact ih onward

/-- Bytes of a range that a state has a move on. -/
theorem trace_moves {ranges : List (UInt8 × UInt8)} {actions : List Action} {code : UInt8}
    (known : moves cs ranges mid actions = true) (member : inRanges ranges code = true) :
    trace cs [code] = some ([actions], mid) :=
  trace_cons (step_of_moves known member) rfl

theorem trace_loop {ranges : List (UInt8 × UInt8)} (known : moves cs ranges cs [] = true)
    (members : ∀ code ∈ text, inRanges ranges code = true) :
    trace cs text = some (List.replicate text.length [], cs) := by
  induction text with
  | nil => rfl
  | cons code rest ih =>
      exact trace_cons (step_of_moves known (members code List.mem_cons_self))
        (ih fun other member => members other (List.mem_cons_of_mem _ member))

/-- On each of those bytes the machine goes on, with those actions, to one of those states. -/
def movesAmong (cs : List (Machine Action)) (ranges : List (UInt8 × UInt8))
    (states : List (List (Machine Action))) (actions : List Action) : Bool :=
  (List.range 256).all fun code =>
    !inRanges ranges code.toUInt8 ||
      match step cs code.toUInt8 with
      | some (next, performed) => next ∈ states && performed = actions
      | none => false

theorem step_of_movesAmong {ranges : List (UInt8 × UInt8)} {states : List (List (Machine Action))}
    {actions : List Action} (known : movesAmong cs ranges states actions = true) {code : UInt8}
    (member : inRanges ranges code = true) :
    ∃ next ∈ states, step cs code = some (next, actions) := by
  have here := List.all_eq_true.mp known code.toNat (List.mem_range.mpr (UInt8.toNat_lt code))
  simp only [Nat.toUInt8_eq, UInt8.ofNat_toNat, member, Bool.not_true, Bool.false_or] at here
  split at here
  next next performed stepped =>
    rw [Bool.and_eq_true, decide_eq_true_eq, decide_eq_true_eq] at here
    exact ⟨next, here.1, here.2 ▸ stepped⟩
  next => cases here

/-- Bytes that perform nothing. -/
theorem trace_among {ranges : List (UInt8 × UInt8)} {states : List (List (Machine Action))}
    (known : ∀ inner ∈ states, movesAmong inner ranges states [] = true) (here : cs ∈ states)
    (members : ∀ code ∈ text, inRanges ranges code = true) :
    ∃ last ∈ states, trace cs text = some (List.replicate text.length [], last) := by
  induction text generalizing cs with
  | nil => exact ⟨cs, here, rfl⟩
  | cons code rest ih =>
      obtain ⟨next, isNext, stepped⟩ :=
        step_of_movesAmong (known cs here) (members code List.mem_cons_self)
      obtain ⟨last, isLast, traced⟩ :=
        ih isNext fun other member => members other (List.mem_cons_of_mem _ member)
      exact ⟨last, isLast, trace_cons stepped traced⟩

/-- The actions on a word and on the byte behind it: one on its first byte, the others behind
it, where all are performed when the word is empty. -/
def spanActions (first : Action) (last : List Action) : Nat → List (List Action)
  | 0 => [first :: last]
  | length + 1 => [first] :: List.replicate length [] ++ [last]

/-- A word with the byte behind it. -/
theorem trace_span {begins ranges : List (UInt8 × UInt8)} {states : List (List (Machine Action))}
    {first : Action} {performed : List Action} {stop : UInt8}
    (opened : movesAmong cs begins states [first] = true)
    (more : ∀ inner ∈ states, movesAmong inner ranges states [] = true)
    (closed : ∀ inner ∈ states, step inner stop = some (mid, performed))
    (absent : text = [] → step cs stop = some (mid, first :: performed))
    (starts : ∀ code ∈ text.head?, inRanges begins code = true)
    (inside : ∀ code ∈ text, inRanges ranges code = true) :
    trace cs (text ++ [stop]) = some (spanActions first performed text.length, mid) := by
  have ended : trace mid [] = some ([], mid) := rfl
  cases text with
  | nil => exact trace_cons (absent rfl) ended
  | cons code rest =>
      obtain ⟨inner, isInner, stepped⟩ := step_of_movesAmong opened (starts code rfl)
      obtain ⟨later, isLater, traced⟩ :=
        trace_among more isInner fun other member => inside other (List.mem_cons_of_mem _ member)
      exact trace_cons stepped (trace_append traced (trace_cons (closed later isLater) ended))

end Trace

/-! ## The effects of a trace -/

section Effects

variable {State : Type v} (effect : Nat → Action → State → Option State) (breaks : Action → Bool)

/-- The actions of some bytes, none of which breaks the run. -/
def performAll (place : Nat) : List (List Action) → State → Option State
  | [], state => some state
  | actions :: later, state =>
      match perform effect breaks place actions state with
      | some (after, false) => performAll (place + 1) later after
      | _ => none

variable {effect breaks} {state after : State}

omit [DecidableEq Action] in
theorem performAll_cons {place : Nat} {actions : List Action} {later : List (List Action)}
    (performed : perform effect breaks place actions state = some (after, false)) :
    performAll effect breaks place (actions :: later) state =
      performAll effect breaks (place + 1) later after := by
  rw [performAll, performed]

omit [DecidableEq Action] in
theorem performAll_append (first second : List (List Action)) (place : Nat) :
    performAll effect breaks place (first ++ second) state =
      (performAll effect breaks place first state).bind
        (performAll effect breaks (place + first.length) second) := by
  induction first generalizing place state with
  | nil => rfl
  | cons actions later ih =>
      rw [List.cons_append, performAll, performAll]
      split
      next next performed =>
        rw [ih, List.length_cons, show place + 1 + later.length = place + (later.length + 1) by omega]
      next => rfl

omit [DecidableEq Action] in
/-- Bytes without an action. -/
theorem performAll_quiet (count place : Nat) (state : State) :
    performAll effect breaks place (List.replicate count []) state = some state := by
  induction count generalizing place with
  | zero => rfl
  | succ count ih => exact ih (place + 1)

omit [DecidableEq Action] in
/-- The actions on a word and behind it. -/
theorem performAll_span {place length : Nat} {first : Action} {last : List Action} {mid : State}
    (opened : effect place first state = some mid) (quiet : breaks first = false)
    (closed : perform effect breaks (place + length) last mid = some (after, false)) :
    performAll effect breaks place (spanActions first last length) state = some after := by
  cases length with
  | zero =>
      have both : perform effect breaks place (first :: last) state = some (after, false) :=
        (perform_cons opened quiet).trans closed
      exact performAll_cons both
  | succ length =>
      have begun : perform effect breaks place [first] state = some (mid, false) :=
        perform_cons opened quiet
      have behind : place + 1 + length = place + (length + 1) := by omega
      rw [spanActions, List.cons_append, performAll_cons begun, performAll_append,
        performAll_quiet, Option.bind_some, List.length_replicate, behind]
      exact performAll_cons closed

theorem exec_trace {cs next : List (Machine Action)} {text : List UInt8}
    {actions : List (List Action)} {place : Nat} (known : trace cs text = some (actions, next))
    (performed : performAll effect breaks place actions state = some after) (rest : List UInt8) :
    exec effect breaks (text ++ rest) place cs state =
      exec effect breaks rest (place + text.length) next after := by
  induction text generalizing cs actions place state with
  | nil =>
      cases known
      cases performed
      rfl
  | cons byte later ih =>
      rw [trace] at known
      cases stepped : step cs byte with
      | none =>
          rw [stepped] at known
          cases known
      | some moved =>
          rw [stepped] at known
          obtain ⟨⟨more, last⟩, traced, same⟩ := Option.map_eq_some_iff.mp known
          cases same
          rw [performAll] at performed
          split at performed
          next middle here =>
            rw [List.cons_append, exec, stepped]
            dsimp only
            rw [here]
            dsimp only
            rw [ih traced performed, List.length_cons,
              show place + 1 + later.length = place + (later.length + 1) by omega]
          next => cases performed

/-- A byte behind which the run goes on. -/
theorem exec_step {cs next : List (Machine Action)} {byte : UInt8} {actions : List Action}
    {place : Nat} (stepped : step cs byte = some (next, actions))
    (performed : perform effect breaks place actions state = some (after, false))
    (rest : List UInt8) :
    exec effect breaks (byte :: rest) place cs state =
      exec effect breaks rest (place + 1) next after := by
  rw [exec, stepped]
  dsimp only
  rw [performed]

/-- A byte that breaks the run. -/
theorem exec_break {cs next : List (Machine Action)} {byte : UInt8} {actions : List Action}
    {place : Nat} (stepped : step cs byte = some (next, actions))
    (performed : perform effect breaks place actions state = some (after, true))
    (rest : List UInt8) :
    exec effect breaks (byte :: rest) place cs state = some (after, next, place + 1) := by
  rw [exec, stepped]
  dsimp only
  rw [performed]

/-- A word and the byte behind it, as a run. -/
theorem exec_span {cs next : List (Machine Action)} {text : List UInt8} {stop : UInt8}
    {first : Action} {last : List Action} {place : Nat} {mid : State}
    (traced : trace cs (text ++ [stop]) = some (spanActions first last text.length, next))
    (opened : effect place first state = some mid) (quiet : breaks first = false)
    (closed : perform effect breaks (place + text.length) last mid = some (after, false))
    (rest : List UInt8) :
    exec effect breaks (text ++ stop :: rest) place cs state =
      exec effect breaks rest (place + text.length + 1) next after := by
  have ran := exec_trace traced (performAll_span opened quiet closed) rest
  rwa [List.append_assoc, List.singleton_append, List.length_append, List.length_singleton,
    ← Nat.add_assoc] at ran

end Effects

/-! ## Bytes that are not told apart -/

section Alike

variable {one other : UInt8}

omit [DecidableEq Action] in
/-- The classes of bytes that the parts of a machine take. -/
def classes : Machine Action → List (List (UInt8 × UInt8))
  | empty => []
  | bytes ranges => [ranges]
  | seq first second | alt first second | guarded _ first second => first.classes ++ second.classes
  | star body | entering _ _ body | leaving _ _ body | finishing _ _ body => body.classes

/-- The classes do not tell the bytes apart. -/
def Alike (one other : UInt8) (classes : List (List (UInt8 × UInt8))) : Prop :=
  ∀ ranges ∈ classes, inRanges ranges one = inRanges ranges other

instance (one other : UInt8) (classes : List (List (UInt8 × UInt8))) :
    Decidable (Alike one other classes) :=
  inferInstanceAs (Decidable (∀ ranges ∈ classes, _))

theorem Alike.left {first second : List (List (UInt8 × UInt8))}
    (same : Alike one other (first ++ second)) : Alike one other first :=
  fun ranges member => same ranges (List.mem_append_left _ member)

theorem Alike.right {first second : List (List (UInt8 × UInt8))}
    (same : Alike one other (first ++ second)) : Alike one other second :=
  fun ranges member => same ranges (List.mem_append_right _ member)

omit [DecidableEq Action] in
/-- The classes of bytes that a machine takes first. -/
def firsts : Machine Action → List (List (UInt8 × UInt8))
  | empty => []
  | bytes ranges => [ranges]
  | seq first second | guarded _ first second =>
      first.firsts ++ if first.exit.isSome then second.firsts else []
  | alt left right => left.firsts ++ right.firsts
  | star body | entering _ _ body | leaving _ _ body | finishing _ _ body => body.firsts

omit [DecidableEq Action] in
theorem firsts_subset (machine : Machine Action) : machine.firsts ⊆ machine.classes := by
  induction machine with
  | empty | bytes ranges => exact List.Subset.refl _
  | seq first second firstIH secondIH | guarded key first second firstIH secondIH =>
      rw [firsts, classes]
      apply List.append_subset.mpr
      constructor
      · exact List.subset_append_of_subset_left _ firstIH
      · split
        next => exact List.subset_append_of_subset_right _ secondIH
        next => exact List.nil_subset _
  | alt left right leftIH rightIH =>
      apply List.append_subset.mpr
      constructor
      · exact List.subset_append_of_subset_left _ leftIH
      · exact List.subset_append_of_subset_right _ rightIH
  | star body ih | entering order action body ih | leaving order action body ih
  | finishing order action body ih => exact ih

omit [DecidableEq Action] in
/-- Bytes that are not told apart at the beginning of a machine. -/
theorem derive_alike {machine : Machine Action} (same : Alike one other machine.firsts) :
    machine.derive one = machine.derive other := by
  induction machine with
  | empty => rfl
  | bytes ranges => rw [derive, derive, same ranges (List.mem_singleton.mpr rfl)]
  | seq first second firstIH secondIH | guarded key first second firstIH secondIH =>
      rw [firsts] at same
      rw [derive, derive, firstIH same.left]
      cases waits : first.exit with
      | none => rfl
      | some pending =>
          rw [waits, Option.isSome_some, if_pos rfl] at same
          rw [secondIH same.right]
  | alt left right leftIH rightIH =>
      rw [firsts] at same
      rw [derive, derive, leftIH same.left, rightIH same.right]
  | star body ih | entering order action body ih | leaving order action body ih
  | finishing order action body ih => rw [derive, derive, ih same]

omit [DecidableEq Action] in
/-- What may follow a byte has no other classes. -/
theorem classes_of_derive {machine : Machine Action} {code : UInt8} {thread : Thread Action}
    (member : thread ∈ machine.derive code) : thread.rest.classes ⊆ machine.classes := by
  induction machine generalizing thread with
  | empty => cases member
  | bytes ranges =>
      rw [derive] at member
      split at member
      next =>
        cases List.mem_singleton.mp member
        exact List.nil_subset _
      next => cases member
  | seq first second firstIH secondIH | guarded key first second firstIH secondIH =>
      rw [derive, List.mem_append, List.mem_map] at member
      rcases member with ⟨inner, isInner, rfl⟩ | later
      · apply List.append_subset.mpr
        exact ⟨List.subset_append_of_subset_left _ (firstIH isInner), List.subset_append_right _ _⟩
      · split at later
        next =>
          obtain ⟨inner, isInner, rfl⟩ := List.mem_map.mp later
          have kept := secondIH isInner
          exact List.Subset.trans kept (List.subset_append_right _ _)
        next => cases later
  | alt left right leftIH rightIH =>
      rw [derive, List.mem_append] at member
      rcases member with inLeft | inRight
      · exact List.Subset.trans (leftIH inLeft) (List.subset_append_left _ _)
      · exact List.Subset.trans (rightIH inRight) (List.subset_append_right _ _)
  | star body ih =>
      rw [derive, List.mem_map] at member
      obtain ⟨inner, isInner, rfl⟩ := member
      exact List.append_subset.mpr ⟨ih isInner, List.Subset.refl _⟩
  | entering order action body ih | leaving order action body ih | finishing order action body ih =>
      rw [derive, List.mem_map] at member
      obtain ⟨inner, isInner, rfl⟩ := member
      have kept := ih isInner
      exact kept

variable {cs : List (Machine Action)}

/-- Bytes that no machine of the state tells apart at its beginning. -/
theorem step_congr (same : Alike one other (cs.flatMap firsts)) : step cs one = step cs other := by
  have all : cs.flatMap (derive one) = cs.flatMap (derive other) :=
    List.flatMap_congr fun machine member => derive_alike fun ranges isClass =>
      same ranges (List.mem_flatMap.mpr ⟨machine, member, isClass⟩)
  rw [step, step, threads, threads, all]

/-- Bytes that no machine of the state tells apart. -/
theorem step_alike (same : Alike one other (cs.flatMap classes)) : step cs one = step cs other := by
  apply step_congr
  intro ranges member
  obtain ⟨machine, isMachine, isFirst⟩ := List.mem_flatMap.mp member
  exact same ranges (List.mem_flatMap.mpr ⟨machine, isMachine, firsts_subset machine isFirst⟩)

theorem classes_of_walk (cs : List (Machine Action)) (text : List UInt8) :
    (walk cs text).flatMap classes ⊆ cs.flatMap classes := by
  induction text generalizing cs with
  | nil => exact List.Subset.refl _
  | cons byte rest ih =>
      rw [walk]
      split
      next => exact List.nil_subset _
      next next actions stepped =>
        apply List.Subset.trans (ih next)
        intro ranges member
        obtain ⟨machine, isMachine, isClass⟩ := List.mem_flatMap.mp member
        obtain ⟨thread, isThread, rfl⟩ := (step_spec stepped).2.1 machine isMachine
        obtain ⟨source, isSource, derived⟩ := mem_threads isThread
        exact List.mem_flatMap.mpr ⟨source, isSource, classes_of_derive derived isClass⟩

end Alike

/-! ## Bytes that stand for all others -/

section Bounds

variable {code : UInt8} {ranges : List (UInt8 × UInt8)}

/-- The bytes at which one of the classes begins, or has ended. -/
def bounds (classes : List (List (UInt8 × UInt8))) : List UInt8 :=
  distinct (0 :: classes.flatten.flatMap fun range => [range.1, range.2 + 1])

theorem mem_bounds {classes : List (List (UInt8 × UInt8))} {range : UInt8 × UInt8}
    (isClass : ranges ∈ classes) (isRange : range ∈ ranges) :
    range.1 ∈ bounds classes ∧ range.2 + 1 ∈ bounds classes := by
  have inFlat : range ∈ classes.flatten := List.mem_flatten.mpr ⟨ranges, isClass, isRange⟩
  rw [bounds, mem_distinct, mem_distinct]
  constructor
  · exact List.mem_cons_of_mem _ (List.mem_flatMap.mpr ⟨range, inFlat, by simp⟩)
  · exact List.mem_cons_of_mem _ (List.mem_flatMap.mpr ⟨range, inFlat, by simp⟩)

theorem toNat_pred (positive : code ≠ 0) : (code - 1).toNat = code.toNat - 1 := by
  have above : 0 < code.toNat := by
    apply Nat.pos_of_ne_zero
    intro isZero
    exact positive (UInt8.toNat_inj.mp isZero)
  exact UInt8.toNat_sub_of_le _ _ (UInt8.le_iff_toNat_le.mpr above)

/-- A range that does not begin or end here has this byte if it has the one before. -/
theorem inRange_pred {range : UInt8 × UInt8} (positive : code ≠ 0) (notFirst : code ≠ range.1)
    (notEnd : code ≠ range.2 + 1) :
    (range.1 ≤ code - 1 && code - 1 ≤ range.2) = (range.1 ≤ code && code ≤ range.2) := by
  have first : code.toNat ≠ range.1.toNat := fun same => notFirst (UInt8.toNat_inj.mp same)
  have last : code.toNat ≠ range.2.toNat + 1 := by
    intro same
    apply notEnd
    apply UInt8.toNat_inj.mp
    rw [UInt8.toNat_add, UInt8.toNat_one, ← same]
    exact (Nat.mod_eq_of_lt code.toNat_lt).symm
  rw [Bool.eq_iff_iff, Bool.and_eq_true, Bool.and_eq_true, decide_eq_true_eq, decide_eq_true_eq,
    decide_eq_true_eq, decide_eq_true_eq, UInt8.le_iff_toNat_le, UInt8.le_iff_toNat_le,
    UInt8.le_iff_toNat_le, UInt8.le_iff_toNat_le, toNat_pred positive]
  omega

/-- Each byte is alike with the last bound that is not behind it. -/
theorem exists_alike (classes : List (List (UInt8 × UInt8))) (code : UInt8) :
    ∃ bound ∈ bounds classes, Alike bound code classes := by
  have zero : 0 ∈ bounds classes := by
    rw [bounds, mem_distinct]
    exact List.mem_cons_self
  induction number : code.toNat generalizing code with
  | zero =>
      have isZero : code = 0 := UInt8.toNat_inj.mp number
      exact ⟨code, isZero ▸ zero, fun _ _ => rfl⟩
  | succ before ih =>
      by_cases isBound : code ∈ bounds classes
      · exact ⟨code, isBound, fun _ _ => rfl⟩
      · have positive : code ≠ 0 := fun isZero => isBound (isZero ▸ zero)
        have pred : (code - 1).toNat = before := by
          rw [toNat_pred positive, number, Nat.add_sub_cancel]
        obtain ⟨bound, isBefore, alike⟩ := ih (code - 1) pred
        refine ⟨bound, isBefore, fun ranges isClass => (alike ranges isClass).trans ?_⟩
        rw [inRanges, inRanges, Bool.eq_iff_iff, List.any_eq_true, List.any_eq_true]
        apply exists_congr
        intro range
        apply and_congr_right
        intro isRange
        have notBounds := mem_bounds isClass isRange
        rw [inRange_pred positive (fun same => isBound (same ▸ notBounds.1))
          (fun same => isBound (same ▸ notBounds.2))]

/-- What does not tell alike bytes apart holds of every byte if it holds of the bounds. -/
theorem forall_of_bounds {classes : List (List (UInt8 × UInt8))} {holds : UInt8 → Prop}
    (respects : ∀ one other, Alike one other classes → holds one → holds other)
    (known : ∀ code ∈ bounds classes, holds code) (code : UInt8) : holds code := by
  obtain ⟨bound, isBound, alike⟩ := exists_alike classes code
  exact respects bound code alike (known bound isBound)

variable {cs next : List (Machine Action)} {actions : List Action}

/-- The steps on bytes are those on the bounds of what comes first. -/
theorem forall_step_of_bounds {holds : Option (List (Machine Action) × List Action) → Prop}
    (known : ∀ code ∈ bounds (ranges :: cs.flatMap firsts), inRanges ranges code = true →
      holds (step cs code)) :
    ∀ code, inRanges ranges code = true → holds (step cs code) := by
  apply forall_of_bounds _ known
  intro one other alike moves member
  have same := alike ranges List.mem_cons_self
  rw [← step_congr fun ranges isClass => alike ranges (List.mem_cons_of_mem _ isClass)]
  exact moves (same.trans member)

theorem moves_of_bounds
    (known : ∀ code ∈ bounds (ranges :: cs.flatMap firsts), inRanges ranges code = true →
      step cs code = some (next, actions)) :
    moves cs ranges next actions = true := by
  have all := @forall_step_of_bounds _ _ ranges cs (· = some (next, actions)) known
  rw [moves, List.all_eq_true]
  intro code _
  cases member : inRanges ranges code.toUInt8 with
  | false => rfl
  | true => simpa using all code.toUInt8 member

/-- A step to one of the states with those actions. -/
def goesAmong (states : List (List (Machine Action))) (actions : List Action) :
    Option (List (Machine Action) × List Action) → Bool
  | some (next, performed) => next ∈ states && performed = actions
  | none => false

theorem movesAmong_of_bounds {states : List (List (Machine Action))}
    (known : ∀ code ∈ bounds (ranges :: cs.flatMap firsts), inRanges ranges code = true →
      goesAmong states actions (step cs code) = true) :
    movesAmong cs ranges states actions = true := by
  have all := @forall_step_of_bounds _ _ ranges cs (goesAmong states actions · = true) known
  rw [movesAmong, List.all_eq_true]
  intro code _
  cases member : inRanges ranges code.toUInt8 with
  | false => rfl
  | true => exact all code.toUInt8 member

end Bounds

end Library.Machine
