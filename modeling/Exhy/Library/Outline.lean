import Exhy.Library.Language

/-!
# Outlines of a machine

The actions of a machine stand between parts that have none.  An outline names these parts,
what stands around each, which parts may come next and what is performed on the way there.
A run of the machine is then a run over the outline: which parts it may be in, and how much
of the text each of them has taken.
-/

namespace Library.Machine

universe u v

variable {Action : Type u} {Kind : Type v}

theorem Thread.after_nil : (Thread.after [] : Thread Action → Thread Action) = id := by
  funext thread
  rfl

/-! ## The end of a text -/

/-- The actions that are performed at the end of the text. -/
def atEnd [DecidableEq Action] (cs : List (Machine Action)) : List Action :=
  distinct (((cs.filterMap exit).flatten.insertionSort fun first second =>
    first.1 ≤ second.1).map Prod.snd)

/-! ## Numbered actions -/

section Numbers

variable [DecidableEq Action] {action : Nat → Action}

omit [DecidableEq Action] in
theorem filter_distinct [DecidableEq Action] (keeps : Action → Bool) (items : List Action) :
    (distinct items).filter keeps = distinct (items.filter keeps) := by
  induction items with
  | nil => rfl
  | cons item rest ih =>
      rw [distinct, List.filter_cons, List.filter_cons, List.filter_filter]
      split
      next kept =>
        rw [distinct, ← ih, List.filter_filter]
        simp only [Bool.and_comm]
      next dropped =>
        rw [← ih]
        apply List.filter_congr
        intro other _
        by_cases same : other = item
        · rw [same, Bool.eq_false_iff.mpr dropped, Bool.false_and]
        · simp [same]

/-- A number that stands twice performs no more than once. -/
theorem distinct_map_distinct (numbers : List Nat) :
    distinct ((distinct numbers).map action) = distinct (numbers.map action) := by
  induction numbers with
  | nil => rfl
  | cons number rest ih =>
      rw [distinct, List.map_cons, List.map_cons, distinct, distinct, ← ih]
      congr 1
      rw [filter_distinct (fun other : Action => decide (other ≠ action number)),
        filter_distinct (fun other : Action => decide (other ≠ action number)),
        List.filter_map, List.filter_map, List.filter_filter]
      congr 2
      apply List.filter_congr
      intro other _
      by_cases same : other = number
      · simp [same]
      · simp [same]

/-- The actions of some numbers, in the order of the numbers. -/
def inOrder (action : Nat → Action) (numbers : List Nat) : List Action :=
  distinct ((numbers.insertionSort (· ≤ ·)).map action)

/-- Items that have the numbers and their actions. -/
theorem inOrder_eq {items : List (Nat × Action)} {numbers : List Nat}
    (same : ∀ item, item ∈ items ↔ ∃ number ∈ numbers, item = (number, action number)) :
    distinct ((items.insertionSort fun first second => first.1 ≤ second.1).map Prod.snd) =
      inOrder action numbers := by
  have total : Std.Total fun first second : Nat × Action => first.1 ≤ second.1 :=
    ⟨fun first second => Nat.le_total first.1 second.1⟩
  have transitive : IsTrans (Nat × Action) fun first second => first.1 ≤ second.1 :=
    ⟨fun _ _ _ => Nat.le_trans⟩
  let sorted := items.insertionSort fun first second => first.1 ≤ second.1
  have inSorted : sorted.Pairwise fun first second => first.1 ≤ second.1 :=
    List.pairwise_insertionSort _ items
  have numbersSorted : (numbers.insertionSort (· ≤ ·)).Pairwise (· ≤ ·) :=
    List.pairwise_insertionSort _ numbers
  have byNumber : sorted.map Prod.snd = (sorted.map Prod.fst).map action := by
    rw [List.map_map]
    apply List.map_congr_left
    intro item member
    obtain ⟨number, -, rfl⟩ := (same item).mp ((List.mem_insertionSort _).mp member)
    rfl
  have equal : distinct (sorted.map Prod.fst) = distinct (numbers.insertionSort (· ≤ ·)) := by
    apply List.Perm.eq_of_pairwise (fun first second _ _ before after => Nat.le_antisymm before after)
    · exact (List.pairwise_map.mpr inSorted).sublist (distinct_sublist _)
    · exact numbersSorted.sublist (distinct_sublist _)
    · rw [List.perm_ext_iff_of_nodup (distinct_nodup _) (distinct_nodup _)]
      intro number
      rw [mem_distinct, mem_distinct, List.mem_insertionSort, List.mem_map]
      constructor
      · rintro ⟨item, member, rfl⟩
        obtain ⟨number, isNumber, rfl⟩ := (same item).mp ((List.mem_insertionSort _).mp member)
        exact isNumber
      · intro isNumber
        exact ⟨(number, action number),
          (List.mem_insertionSort _).mpr ((same _).mpr ⟨number, isNumber, rfl⟩), rfl⟩
  show distinct (sorted.map Prod.snd) = inOrder action numbers
  rw [byNumber, ← distinct_map_distinct, equal, distinct_map_distinct, inOrder]

end Numbers

/-! ## Outlines -/

/-- The parts without actions, with their surroundings, and the steps between them. -/
structure Plan (Action : Type u) (Kind : Type v) where
  part : Kind → Machine Action
  frames : Kind → List (Frame Action)
  action : Nat → Action
  first : List (Kind × List Nat)
  follow : Kind → List (Kind × List Nat)
  last : Kind → Option (List Nat)

namespace Plan

variable (plan : Plan Action Kind)

def item (number : Nat) : Nat × Action := (number, plan.action number)

/-- The ways into a part on a byte. -/
def ways (code : UInt8) (next : Kind × List Nat) : List (Thread Action) :=
  ((plan.part next.1).derive code).map fun thread =>
    (thread.andThen (plug (plan.frames next.1))).after (next.2.map plan.item)

end Plan

/-- The plan is one of the machine. -/
structure Outline (Action : Type u) (Kind : Type v) extends Plan Action Kind where
  start : Machine Action
  flat : ∀ kind, (part kind).plain = true
  alive : ∀ kind, (part kind).inhabited = true
  enters : ∀ code, start.derive code = first.flatMap (toPlan.ways code)
  leaves : ∀ kind code,
    (plug (frames kind) empty).derive code = (follow kind).flatMap (toPlan.ways code)
  ends : ∀ kind, (plug (frames kind) empty).exit = (last kind).map (List.map toPlan.item)

namespace Outline

variable (outline : Outline Action Kind)

/-- What a part is in after a text. -/
def residual [DecidableEq Action] (entry : Kind × List UInt8) : List (Machine Action) :=
  walk [outline.part entry.1] entry.2

variable [DecidableEq Action]

/-- The part may end behind the text. -/
def stops (entry : Kind × List UInt8) : Bool := final (outline.residual entry)

/-- The part starts with the byte. -/
def takes (code : UInt8) (kind : Kind) : Bool := !((outline.part kind).derive code).isEmpty

/-- The parts that may come next. -/
def ready (state : List (Kind × List UInt8)) : List (Kind × List Nat) :=
  state.flatMap fun entry => if outline.stops entry then outline.follow entry.1 else []

/-- The texts after a byte, on which the run may go on to the next parts. -/
def advance (next : List (Kind × List Nat)) (code : UInt8) (state : List (Kind × List UInt8)) :
    List (Kind × List UInt8) :=
  state.map (fun entry => (entry.1, entry.2 ++ [code])) ++ next.map fun way => (way.1, [code])

/-- The numbers of what is performed on the way to the next parts. -/
def numbers (next : List (Kind × List Nat)) (code : UInt8) : List Nat :=
  (next.filter fun way => outline.takes code way.1).flatMap Prod.snd

/-- The numbers of what is performed at the end. -/
def endings (state : List (Kind × List UInt8)) : List Nat :=
  state.flatMap fun entry =>
    if outline.stops entry then (outline.last entry.1).getD [] else []

/-- The state of the machine is that of the parts and texts. -/
def Sees (state : List (Kind × List UInt8)) (cs : List (Machine Action)) : Prop :=
  ∀ machine, machine ∈ cs ↔
    ∃ entry ∈ state, ∃ part ∈ outline.residual entry, machine = plug (outline.frames entry.1) part

variable {outline} {state : List (Kind × List UInt8)} {cs : List (Machine Action)} {code : UInt8}

/-! ## Steps -/

theorem plain_residual {entry : Kind × List UInt8} {part : Machine Action}
    (member : part ∈ outline.residual entry) : part.plain = true :=
  plain_walk (fun _ isPart => List.mem_singleton.mp isPart ▸ outline.flat entry.1) entry.2
    part member

/-- What a part is in after one more byte. -/
theorem mem_residual_append {kind : Kind} {text : List UInt8} {part : Machine Action} :
    part ∈ outline.residual (kind, text ++ [code]) ↔
      ∃ before ∈ outline.residual (kind, text), ∃ thread ∈ before.derive code, thread.rest = part := by
  have whole : outline.residual (kind, text ++ [code]) =
      walk (outline.residual (kind, text)) [code] := walk_append _ text [code]
  rw [whole]
  apply exists_mem_walk_single
  exact fun _ member => unguarded_of_plain (plain_residual member)

theorem mem_residual_single {kind : Kind} {part : Machine Action} :
    part ∈ outline.residual (kind, [code]) ↔
      ∃ thread ∈ (outline.part kind).derive code, thread.rest = part := by
  have whole : part ∈ outline.residual (kind, [] ++ [code]) ↔ ∃ before ∈ outline.residual (kind, []),
      ∃ thread ∈ before.derive code, thread.rest = part := mem_residual_append
  apply whole.trans
  simp [residual, walk]

/-- The ways to take a byte go on inside the parts or into the next ones. -/
def Goes (outline : Outline Action Kind) (next : List (Kind × List Nat)) (code : UInt8)
    (state : List (Kind × List UInt8)) (thread : Thread Action) : Prop :=
  (∃ entry ∈ state, ∃ part ∈ outline.residual entry, ∃ inner ∈ part.derive code,
    thread = inner.andThen (plug (outline.frames entry.1))) ∨
  ∃ way ∈ next, thread ∈ outline.ways code way

theorem Goes.priorities {next : List (Kind × List Nat)} {thread : Thread Action}
    (goes : Goes outline next code state thread) : thread.priorities = [] := by
  rcases goes with ⟨entry, -, part, isPart, inner, derived, rfl⟩ | ⟨way, -, isWay⟩
  · exact (derive_plain (plain_residual isPart) derived).priorities
  · obtain ⟨inner, derived, rfl⟩ := List.mem_map.mp isWay
    exact (derive_plain (outline.flat way.1) derived).priorities

/-- What is left is what the parts are in then. -/
theorem exists_goes {next : List (Kind × List Nat)} {machine : Machine Action} :
    (∃ thread, Goes outline next code state thread ∧ thread.rest = machine) ↔
      ∃ entry ∈ advance next code state, ∃ part ∈ outline.residual entry,
        machine = plug (outline.frames entry.1) part := by
  constructor
  · rintro ⟨thread, ⟨entry, isEntry, part, isPart, inner, derived, rfl⟩ | ⟨way, isNext, isWay⟩, rfl⟩
    · refine ⟨(entry.1, entry.2 ++ [code]), List.mem_append_left _ (List.mem_map_of_mem isEntry),
        inner.rest, ?_, rfl⟩
      exact mem_residual_append.mpr ⟨part, isPart, inner, derived, rfl⟩
    · obtain ⟨inner, derived, rfl⟩ := List.mem_map.mp isWay
      refine ⟨(way.1, [code]), List.mem_append_right _ (List.mem_map_of_mem isNext), inner.rest, ?_,
        rfl⟩
      exact mem_residual_single.mpr ⟨inner, derived, rfl⟩
  · rintro ⟨entry, isEntry, part, isPart, rfl⟩
    rcases List.mem_append.mp isEntry with inside | onward
    · obtain ⟨before, isBefore, rfl⟩ := List.mem_map.mp inside
      obtain ⟨source, isSource, inner, derived, rfl⟩ := mem_residual_append.mp isPart
      exact ⟨_, .inl ⟨before, isBefore, source, isSource, inner, derived, rfl⟩, rfl⟩
    · obtain ⟨way, isNext, rfl⟩ := List.mem_map.mp onward
      obtain ⟨inner, derived, rfl⟩ := mem_residual_single.mp isPart
      exact ⟨_, .inr ⟨way, isNext, List.mem_map.mpr ⟨inner, derived, rfl⟩⟩, rfl⟩

/-- What is performed has the numbers of the ways into the parts that take the byte. -/
theorem exists_item {next : List (Kind × List Nat)} {item : Nat × Action} :
    (∃ thread, Goes outline next code state thread ∧ item ∈ thread.actions) ↔
      ∃ number ∈ outline.numbers next code, item = (number, outline.action number) := by
  constructor
  · rintro ⟨thread, ⟨entry, -, part, isPart, inner, derived, rfl⟩ | ⟨way, isNext, isWay⟩, isItem⟩
    · have nothing : inner.actions = [] := (derive_plain (plain_residual isPart) derived).actions
      rw [Thread.andThen, nothing] at isItem
      cases isItem
    · obtain ⟨inner, derived, rfl⟩ := List.mem_map.mp isWay
      have nothing : inner.actions = [] := (derive_plain (outline.flat way.1) derived).actions
      rw [Thread.after, Thread.andThen, nothing, List.append_nil] at isItem
      obtain ⟨number, isNumber, rfl⟩ := List.mem_map.mp isItem
      refine ⟨number, List.mem_flatMap.mpr ⟨way, ?_, isNumber⟩, rfl⟩
      rw [List.mem_filter, takes, Bool.not_eq_true', List.isEmpty_eq_false_iff]
      exact ⟨isNext, List.ne_nil_of_mem derived⟩
  · rintro ⟨number, member, rfl⟩
    obtain ⟨way, isWay, isNumber⟩ := List.mem_flatMap.mp member
    rw [List.mem_filter, takes, Bool.not_eq_true', List.isEmpty_eq_false_iff] at isWay
    obtain ⟨inner, derived⟩ := List.exists_mem_of_ne_nil _ isWay.2
    exact ⟨_, .inr ⟨way, isWay.1, List.mem_map.mpr ⟨inner, derived, rfl⟩⟩,
      List.mem_append_left _ (List.mem_map.mpr ⟨number, isNumber, rfl⟩)⟩

/-- A byte on which some part goes on. -/
theorem step_of_goes {next : List (Kind × List Nat)}
    (goes : ∀ thread, (∃ machine ∈ cs, thread ∈ machine.derive code) ↔
      Goes outline next code state thread)
    (alive : ∃ entry ∈ advance next code state, outline.residual entry ≠ []) :
    ∃ cs', step cs code = some (cs', inOrder outline.action (outline.numbers next code)) ∧
      outline.Sees (advance next code state) cs' := by
  have ways : ∀ thread, thread ∈ threads cs code ↔ Goes outline next code state thread := by
    intro thread
    rw [← goes, threads_of_priorities, List.mem_flatMap]
    intro machine member other derived
    exact ((goes other).mp ⟨machine, member, derived⟩).priorities
  have some : threads cs code ≠ [] := by
    obtain ⟨entry, isEntry, isAlive⟩ := alive
    obtain ⟨part, isPart⟩ := List.exists_mem_of_ne_nil _ isAlive
    obtain ⟨thread, isGoing, -⟩ := exists_goes.mpr ⟨entry, isEntry, part, isPart, rfl⟩
    exact List.ne_nil_of_mem ((ways thread).mpr isGoing)
  refine ⟨distinct ((threads cs code).map Thread.rest), ?_, ?_⟩
  · rw [step]
    split
    next nothing => exact absurd nothing some
    next =>
      dsimp only
      rw [inOrder_eq]
      intro item
      have performed : (∃ thread, Goes outline next code state thread ∧ item ∈ thread.actions) ↔
          ∃ number ∈ outline.numbers next code, item = (number, outline.action number) := exists_item
      rw [← performed, List.mem_flatMap]
      simp only [ways]
  · intro machine
    rw [mem_distinct, List.mem_map, ← exists_goes]
    simp only [ways]

/-- A part takes a byte, or ends and leaves it to the next ones. -/
theorem mem_derive_plug {entry : Kind × List UInt8} {part : Machine Action}
    (isPart : part ∈ outline.residual entry) {thread : Thread Action} :
    thread ∈ (plug (outline.frames entry.1) part).derive code ↔
      (∃ inner ∈ part.derive code, thread = inner.andThen (plug (outline.frames entry.1))) ∨
        part.exit.isSome = true ∧ ∃ way ∈ outline.follow entry.1, thread ∈ outline.ways code way := by
  have inside : thread ∈ (part.derive code).map (Thread.andThen · (plug (outline.frames entry.1))) ↔
      ∃ inner ∈ part.derive code, thread = inner.andThen (plug (outline.frames entry.1)) := by
    rw [List.mem_map]
    simp only [eq_comm]
  rcases exit_eq_of_plain (plain_residual isPart) with stays | exits
  · rw [derive_plug_of_stays _ _ stays, inside, stays]
    simp
  · rw [derive_plug_of_exit _ _ exits, List.mem_append, inside, outline.leaves, List.mem_flatMap,
      exits]
    simp

theorem mem_ready {way : Kind × List Nat} : way ∈ outline.ready state ↔
    ∃ entry ∈ state, (∃ part ∈ outline.residual entry, part.exit.isSome = true) ∧
      way ∈ outline.follow entry.1 := by
  rw [ready, List.mem_flatMap]
  apply exists_congr
  intro entry
  apply and_congr_right
  intro _
  rw [← List.any_eq_true, show (outline.residual entry).any _ = outline.stops entry from rfl]
  split
  next stops => simp [stops]
  next goesOn => simp [goesOn]

/-- What the parts are in and which ways are open. -/
structure Offers (outline : Outline Action Kind) (state : List (Kind × List UInt8))
    (next : List (Kind × List Nat)) (cs : List (Machine Action)) : Prop where
  goes : ∀ code thread, (∃ machine ∈ cs, thread ∈ machine.derive code) ↔
    Goes outline next code state thread

theorem offers_start (outline : Outline Action Kind) :
    outline.Offers [] outline.first [outline.start] where
  goes code thread := by
    rw [Goes]
    simp [outline.enters, List.mem_flatMap]

theorem Sees.offers (sees : outline.Sees state cs) :
    outline.Offers state (outline.ready state) cs := by
  constructor
  intro code thread
  constructor
  · rintro ⟨machine, isMachine, derived⟩
    obtain ⟨entry, isEntry, part, isPart, rfl⟩ := (sees machine).mp isMachine
    rcases (mem_derive_plug isPart).mp derived with ⟨inner, isInner, rfl⟩ | ⟨exits, way, follows, isWay⟩
    · exact .inl ⟨entry, isEntry, part, isPart, inner, isInner, rfl⟩
    · exact .inr ⟨way, mem_ready.mpr ⟨entry, isEntry, ⟨part, isPart, exits⟩, follows⟩, isWay⟩
  · rintro (⟨entry, isEntry, part, isPart, inner, isInner, rfl⟩ | ⟨way, isReady, isWay⟩)
    · exact ⟨_, (sees _).mpr ⟨entry, isEntry, part, isPart, rfl⟩,
        (mem_derive_plug isPart).mpr (.inl ⟨inner, isInner, rfl⟩)⟩
    · obtain ⟨entry, isEntry, ⟨part, isPart, exits⟩, follows⟩ := mem_ready.mp isReady
      exact ⟨_, (sees _).mpr ⟨entry, isEntry, part, isPart, rfl⟩,
        (mem_derive_plug isPart).mpr (.inr ⟨exits, way, follows, isWay⟩)⟩

/-- Parts in which nothing can go on may be left out. -/
theorem Sees.congr {other : List (Kind × List UInt8)} (sees : outline.Sees state cs)
    (same : ∀ entry, outline.residual entry ≠ [] → (entry ∈ state ↔ entry ∈ other)) :
    outline.Sees other cs := by
  intro machine
  rw [sees machine]
  constructor
  · rintro ⟨entry, isEntry, part, isPart, equal⟩
    exact ⟨entry, (same entry (List.ne_nil_of_mem isPart)).mp isEntry, part, isPart, equal⟩
  · rintro ⟨entry, isEntry, part, isPart, equal⟩
    exact ⟨entry, (same entry (List.ne_nil_of_mem isPart)).mpr isEntry, part, isPart, equal⟩

/-! ## The end of a run -/

/-- The part of an entry may end. -/
theorem stops_iff {entry : Kind × List UInt8} : outline.stops entry = true ↔
    ∃ part ∈ outline.residual entry, part.exit.isSome = true := by
  rw [stops, final, List.any_eq_true]

theorem exit_plug {entry : Kind × List UInt8} {part : Machine Action}
    (isPart : part ∈ outline.residual entry) :
    (plug (outline.frames entry.1) part).exit =
      if part.exit.isSome then (outline.last entry.1).map (List.map outline.toPlan.item) else none := by
  rcases exit_eq_of_plain (plain_residual isPart) with stays | stops
  · rw [stays]
    exact exit_plug_of_stays _ stays
  · rw [exit_plug_of_exit _ stops, outline.ends, stops]
    rfl

theorem Sees.final (sees : outline.Sees state cs) : final cs = true ↔
    ∃ entry ∈ state, outline.stops entry = true ∧ (outline.last entry.1).isSome = true := by
  rw [Machine.final, List.any_eq_true]
  constructor
  · rintro ⟨machine, isMachine, exits⟩
    obtain ⟨entry, isEntry, part, isPart, rfl⟩ := (sees machine).mp isMachine
    rw [exit_plug isPart] at exits
    split at exits
    next partExits =>
      rw [Option.isSome_map] at exits
      exact ⟨entry, isEntry, stops_iff.mpr ⟨part, isPart, partExits⟩, exits⟩
    next => cases exits
  · rintro ⟨entry, isEntry, stops, isLast⟩
    obtain ⟨part, isPart, exits⟩ := stops_iff.mp stops
    refine ⟨_, (sees _).mpr ⟨entry, isEntry, part, isPart, rfl⟩, ?_⟩
    rw [exit_plug isPart, if_pos exits, Option.isSome_map]
    exact isLast

/-- What is performed at the end of the text. -/
theorem Sees.atEnd (sees : outline.Sees state cs) :
    Machine.atEnd cs = inOrder outline.action (outline.endings state) := by
  rw [Machine.atEnd, inOrder_eq]
  intro item
  simp only [List.mem_flatten, List.mem_filterMap]
  constructor
  · rintro ⟨actions, ⟨machine, isMachine, exits⟩, isItem⟩
    obtain ⟨entry, isEntry, part, isPart, rfl⟩ := (sees machine).mp isMachine
    rw [exit_plug isPart] at exits
    split at exits
    next partExits =>
      obtain ⟨numbers, isLast, rfl⟩ := Option.map_eq_some_iff.mp exits
      obtain ⟨number, isNumber, rfl⟩ := List.mem_map.mp isItem
      refine ⟨number, List.mem_flatMap.mpr ⟨entry, isEntry, ?_⟩, rfl⟩
      rw [if_pos (stops_iff.mpr ⟨part, isPart, partExits⟩), isLast]
      exact isNumber
    next => cases exits
  · rintro ⟨number, member, rfl⟩
    obtain ⟨entry, isEntry, isNumber⟩ := List.mem_flatMap.mp member
    split at isNumber
    next stops =>
      obtain ⟨part, isPart, exits⟩ := stops_iff.mp stops
      cases isLast : outline.last entry.1 with
      | none =>
          rw [isLast] at isNumber
          cases isNumber
      | some numbers =>
          rw [isLast] at isNumber
          refine ⟨numbers.map outline.toPlan.item,
            ⟨_, (sees _).mpr ⟨entry, isEntry, part, isPart, rfl⟩, ?_⟩,
            List.mem_map.mpr ⟨number, isNumber, rfl⟩⟩
          rw [exit_plug isPart, if_pos exits, isLast]
          rfl
    next => cases isNumber

/-! ## Texts of the parts -/

theorem stops_eq {kind : Kind} {text : List UInt8} :
    outline.stops (kind, text) = true ↔ text ∈ (outline.part kind).language :=
  final_walk (unguarded_of_plain (outline.flat kind)) text

/-- A part goes on as long as the text begins one of its language. -/
theorem residual_ne_nil {kind : Kind} {text more : List UInt8}
    (member : text ++ more ∈ (outline.part kind).language) : outline.residual (kind, text) ≠ [] :=
  walk_ne_nil (unguarded_of_plain (outline.flat kind)) member

theorem residual_ne_nil_iff {kind : Kind} {text : List UInt8} : outline.residual (kind, text) ≠ [] ↔
    ∃ more, text ++ more ∈ (outline.part kind).language :=
  walk_ne_nil_iff (unguarded_of_plain (outline.flat kind)) (outline.alive kind)

theorem residual_append_of_nil {kind : Kind} {text : List UInt8}
    (dead : outline.residual (kind, text) = []) (more : List UInt8) :
    outline.residual (kind, text ++ more) = [] := by
  have whole : outline.residual (kind, text ++ more) = walk (outline.residual (kind, text)) more :=
    walk_append _ text more
  rw [whole, dead]
  cases more with
  | nil => rfl
  | cons byte rest => rfl

theorem takes_iff {kind : Kind} : outline.takes code kind = true ↔
    outline.residual (kind, [code]) ≠ [] := by
  rw [takes, Bool.not_eq_true', List.isEmpty_eq_false_iff]
  constructor
  · intro some
    obtain ⟨thread, derived⟩ := List.exists_mem_of_ne_nil _ some
    exact List.ne_nil_of_mem (mem_residual_single.mpr ⟨thread, derived, rfl⟩)
  · intro some
    obtain ⟨part, isPart⟩ := List.exists_mem_of_ne_nil _ some
    obtain ⟨thread, derived, -⟩ := mem_residual_single.mp isPart
    exact List.ne_nil_of_mem derived

/-! ## Moves -/

/-- The ways that are taken on a byte. -/
def taken (outline : Outline Action Kind) (code : UInt8) (next : List (Kind × List Nat)) :
    List (Kind × List Nat) :=
  next.filter fun way => outline.takes code way.1

theorem taken_ready : outline.taken code (outline.ready state) = state.flatMap fun entry =>
    if outline.stops entry then outline.taken code (outline.follow entry.1) else [] := by
  rw [taken, ready, List.filter_flatMap]
  apply List.flatMap_congr
  intro entry _
  split
  next => rfl
  next => rfl

/-- A byte on which those ways are taken. -/
theorem Offers.move {next ways : List (Kind × List Nat)} (offers : outline.Offers state next cs)
    (areTaken : outline.taken code next = ways)
    (alive : (∃ entry ∈ state, outline.residual (entry.1, entry.2 ++ [code]) ≠ []) ∨ ways ≠ []) :
    ∃ cs', Machine.step cs code = some (cs', inOrder outline.action (ways.flatMap Prod.snd)) ∧
      outline.Sees (advance ways code state) cs' := by
  have isWay : ∀ way, way ∈ ways ↔ way ∈ next ∧ outline.takes code way.1 = true := by
    intro way
    rw [← areTaken, taken, List.mem_filter]
  have goesOn : ∃ entry ∈ advance next code state, outline.residual entry ≠ [] := by
    rcases alive with ⟨entry, isEntry, isAlive⟩ | some
    · exact ⟨_, List.mem_append_left _ (List.mem_map_of_mem isEntry), isAlive⟩
    · obtain ⟨way, member⟩ := List.exists_mem_of_ne_nil _ some
      have isNext := (isWay way).mp member
      exact ⟨_, List.mem_append_right _ (List.mem_map_of_mem isNext.1), takes_iff.mp isNext.2⟩
  obtain ⟨cs', stepped, sees⟩ := step_of_goes (offers.goes code) goesOn
  have same : outline.numbers next code = ways.flatMap Prod.snd := by
    rw [← areTaken]
    rfl
  rw [same] at stepped
  refine ⟨cs', stepped, sees.congr ?_⟩
  intro entry isAlive
  rw [advance, advance, List.mem_append, List.mem_append]
  apply or_congr_right
  rw [List.mem_map, List.mem_map]
  constructor
  · rintro ⟨way, isNext, rfl⟩
    exact ⟨way, (isWay way).mpr ⟨isNext, takes_iff.mpr isAlive⟩, rfl⟩
  · rintro ⟨way, member, rfl⟩
    exact ⟨way, ((isWay way).mp member).1, rfl⟩

end Outline

end Library.Machine
