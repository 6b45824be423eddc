import Exhy.Library.Trace

/-!
# Parts of a machine and what surrounds them

A part without actions keeps its surroundings while it takes bytes with which nothing else can
go on.  So a run over a text of the part is known from the part alone.
-/

namespace Library.Machine

universe u

variable {Action : Type u}

/-! ## Parts without actions -/

/-- No action is performed in the machine, and no part of it is given up. -/
def plain : Machine Action → Bool
  | empty | bytes _ => true
  | seq first second | alt first second => first.plain && second.plain
  | star body => body.plain
  | entering .. | leaving .. | finishing .. | guarded .. => false

/-- A way to take a byte that performs nothing. -/
structure Thread.Plain (thread : Thread Action) : Prop where
  rest : thread.rest.plain = true
  actions : thread.actions = []
  priorities : thread.priorities = []

theorem exit_of_plain {machine : Machine Action} (plain : machine.plain = true)
    {actions : List (Nat × Action)} (exits : machine.exit = some actions) : actions = [] := by
  induction machine generalizing actions with
  | empty | star body =>
      cases exits
      rfl
  | bytes ranges => cases exits
  | seq first second firstIH secondIH =>
      rw [Machine.plain, Bool.and_eq_true] at plain
      rw [exit] at exits
      split at exits
      next before after firstExits secondExits =>
        cases exits
        rw [firstIH plain.1 firstExits, secondIH plain.2 secondExits, List.append_nil]
      next => cases exits
  | alt left right leftIH rightIH =>
      rw [Machine.plain, Bool.and_eq_true] at plain
      rw [exit] at exits
      split at exits
      next before after leftExits rightExits =>
        cases exits
        rw [leftIH plain.1 leftExits, rightIH plain.2 rightExits, List.append_nil]
      next only leftExits rightExits =>
        cases exits
        exact leftIH plain.1 leftExits
      next only leftExits rightExits =>
        cases exits
        exact rightIH plain.2 rightExits
      next => cases exits
  | entering order action body | leaving order action body | finishing order action body
  | guarded key first second => cases plain

theorem derive_plain {machine : Machine Action} (plain : machine.plain = true) {code : UInt8}
    {thread : Thread Action} (member : thread ∈ machine.derive code) : thread.Plain := by
  induction machine generalizing thread with
  | empty => cases member
  | bytes ranges =>
      rw [derive] at member
      split at member
      next =>
        cases List.mem_singleton.mp member
        exact ⟨rfl, rfl, rfl⟩
      next => cases member
  | seq first second firstIH secondIH =>
      rw [Machine.plain, Bool.and_eq_true] at plain
      rw [derive, List.mem_append, List.mem_map] at member
      rcases member with ⟨inner, isInner, rfl⟩ | later
      · obtain ⟨rest, actions, priorities⟩ := firstIH plain.1 isInner
        exact ⟨Bool.and_eq_true_iff.mpr ⟨rest, plain.2⟩, actions, priorities⟩
      · split at later
        next pending exits =>
          obtain ⟨inner, isInner, rfl⟩ := List.mem_map.mp later
          obtain ⟨rest, actions, priorities⟩ := secondIH plain.2 isInner
          cases exit_of_plain plain.1 exits
          exact ⟨rest, actions, priorities⟩
        next => cases later
  | alt left right leftIH rightIH =>
      rw [Machine.plain, Bool.and_eq_true] at plain
      rw [derive, List.mem_append] at member
      exact member.elim (leftIH plain.1) (rightIH plain.2)
  | star body ih =>
      rw [derive, List.mem_map] at member
      obtain ⟨inner, isInner, rfl⟩ := member
      obtain ⟨rest, actions, priorities⟩ := ih plain isInner
      exact ⟨Bool.and_eq_true_iff.mpr ⟨rest, plain⟩, actions, priorities⟩
  | entering order action body | leaving order action body | finishing order action body
  | guarded key first second => cases plain

theorem exit_eq_of_plain {machine : Machine Action} (plain : machine.plain = true) :
    machine.exit = none ∨ machine.exit = some [] := by
  cases exits : machine.exit with
  | none => exact .inl rfl
  | some actions =>
      cases exit_of_plain plain exits
      exact .inr rfl

/-- A byte that is in no class of the machine. -/
theorem derive_eq_nil_of_classes {machine : Machine Action} {code : UInt8}
    (outside : ∀ ranges ∈ machine.classes, inRanges ranges code = false) :
    machine.derive code = [] := by
  induction machine with
  | empty => rfl
  | bytes ranges =>
      rw [derive, outside ranges (List.mem_singleton.mpr rfl), if_neg Bool.false_ne_true]
  | alt left right leftIH rightIH =>
      have inLeft := leftIH fun ranges member => outside ranges (List.mem_append_left _ member)
      have inRight := rightIH fun ranges member => outside ranges (List.mem_append_right _ member)
      rw [derive, inLeft, inRight, List.append_nil]
  | seq first second firstIH secondIH | guarded key first second firstIH secondIH =>
      have inFirst := firstIH fun ranges member => outside ranges (List.mem_append_left _ member)
      have inSecond := secondIH fun ranges member => outside ranges (List.mem_append_right _ member)
      rw [derive, inFirst, inSecond]
      split
      · rfl
      · rfl
  | star body ih | entering order action body ih | leaving order action body ih
  | finishing order action body ih =>
      rw [derive, ih outside]
      rfl

/-- A byte that the machine does not start with. -/
theorem derive_eq_nil_of_startsIn {allowed : List (UInt8 × UInt8)} {machine : Machine Action}
    (starts : machine.startsIn allowed = true) {code : UInt8}
    (outside : inRanges allowed code = false) : machine.derive code = [] := by
  rw [List.eq_nil_iff_forall_not_mem]
  intro thread member
  rw [mem_of_startsIn starts member] at outside
  cases outside

theorem inRanges_single {codes : List UInt8} {code : UInt8} (other : code ∉ codes) :
    inRanges (codes.map fun stop => (stop, stop)) code = false := by
  rw [inRanges, List.any_eq_false]
  intro range member inside
  obtain ⟨stop, isStop, rfl⟩ := List.mem_map.mp member
  simp only [Bool.and_eq_true, decide_eq_true_eq] at inside
  exact other (UInt8.le_antisymm inside.1 inside.2 ▸ isStop)

/-- The bytes of a text that a state takes are in its classes. -/
theorem classes_of_alive [DecidableEq Action] {cs : List (Machine Action)} {text : List UInt8}
    (alive : walk cs text ≠ []) :
    ∀ code ∈ text, ∃ ranges ∈ cs.flatMap classes, inRanges ranges code = true := by
  induction text generalizing cs with
  | nil =>
      intro code member
      cases member
  | cons byte rest ih =>
      rw [walk] at alive
      split at alive
      next => exact absurd rfl alive
      next next actions stepped =>
        intro code member
        rcases List.mem_cons.mp member with rfl | later
        · by_contra outside
          have nothing : ∀ machine ∈ cs, machine.derive code = [] := by
            intro machine isMachine
            apply derive_eq_nil_of_classes
            intro ranges isClass
            by_contra inside
            have isIn := List.mem_flatMap.mpr ⟨machine, isMachine, isClass⟩
            exact outside ⟨ranges, isIn, Bool.of_not_eq_false inside⟩
          obtain ⟨machine, isNext⟩ := List.exists_mem_of_ne_nil _ (step_spec stepped).1
          obtain ⟨thread, isThread, -⟩ := (step_spec stepped).2.1 machine isNext
          obtain ⟨source, isSource, derived⟩ := mem_threads isThread
          rw [nothing source isSource] at derived
          cases derived
        · obtain ⟨ranges, isClass, inside⟩ := ih alive code later
          have kept := classes_of_walk cs [byte]
          rw [walk, stepped] at kept
          exact ⟨ranges, kept isClass, inside⟩

/-! ## Surroundings -/

/-- What stands around a part: something that follows, an action behind it, or the end of the
machine, which is performed behind something that is not empty. -/
inductive Frame (Action : Type u) where
  | before (second : Machine Action)
  | leaving (order : Nat) (action : Action)
  | ending (order : Nat) (action : Action) (second : Machine Action) (stays : second.exit = none)

def Frame.put (frame : Frame Action) (part : Machine Action) : Machine Action :=
  match frame with
  | before second => seq part second
  | leaving order action => Machine.leaving order action part
  | ending order action second _ => finishing order action (seq part second)

/-- The part in all its frames, the outermost first. -/
def plug (frames : List (Frame Action)) (part : Machine Action) : Machine Action :=
  frames.foldr Frame.put part

section Plug

variable {part : Machine Action} (frames : List (Frame Action)) (code : UInt8)

@[simp] theorem plug_nil (part : Machine Action) : plug [] part = part := rfl

@[simp] theorem plug_cons (frame : Frame Action) (part : Machine Action) :
    plug (frame :: frames) part = frame.put (plug frames part) := rfl

theorem exit_plug_of_stays (stays : part.exit = none) : (plug frames part).exit = none := by
  induction frames with
  | nil => exact stays
  | cons frame inner ih =>
      cases frame with
      | before second => rw [plug_cons, Frame.put, exit, ih]
      | leaving order action => rw [plug_cons, Frame.put, exit, ih, Option.map_none]
      | ending order action second stays => rw [plug_cons, Frame.put, exit, exit, ih]

theorem exit_plug_of_exit (exits : part.exit = some []) :
    (plug frames part).exit = (plug frames empty).exit := by
  induction frames with
  | nil => exact exits
  | cons frame inner ih =>
      cases frame with
      | before second => rw [plug_cons, plug_cons, Frame.put, Frame.put, exit, exit, ih]
      | leaving order action => rw [plug_cons, plug_cons, Frame.put, Frame.put, exit, exit, ih]
      | ending order action second stays =>
          rw [plug_cons, plug_cons, Frame.put, Frame.put, exit, exit, exit, exit, ih]

/-- What an ending does to a way to take a byte. -/
def Thread.finished (order : Nat) (action : Action) (thread : Thread Action) : Thread Action :=
  { thread with
    rest := finishing order action thread.rest
    actions := thread.actions ++ if thread.rest.exit.isSome then [(order, action)] else [] }

/-- Nothing ends as long as something is to follow. -/
theorem finished_andThen {order : Nat} {action : Action} {second : Machine Action}
    (stays : second.exit = none) (thread : Thread Action) :
    Thread.finished order action (thread.andThen (seq · second)) =
      thread.andThen fun rest => finishing order action (seq rest second) := by
  have unfinished : (seq thread.rest second).exit = none := by
    rw [exit, stays]
    split
    next before after firstExits secondExits => cases secondExits
    next => rfl
  simp only [Thread.finished, Thread.andThen, unfinished, Option.isSome_none, Bool.false_eq_true,
    if_false, List.append_nil]

theorem derive_plug_of_stays (stays : part.exit = none) :
    (plug frames part).derive code = (part.derive code).map (Thread.andThen · (plug frames)) := by
  induction frames with
  | nil => exact (List.map_id' _).symm
  | cons frame inner ih =>
      have opened := exit_plug_of_stays inner stays
      cases frame with
      | before second =>
          rw [plug_cons, Frame.put, derive, opened, List.append_nil, ih, List.map_map]
          rfl
      | leaving order action =>
          rw [plug_cons, Frame.put, derive, ih, List.map_map]
          rfl
      | ending order action second follows =>
          rw [plug_cons, Frame.put, derive, derive, opened, List.append_nil, ih, List.map_map,
            List.map_map]
          apply List.map_congr_left
          intro thread _
          exact finished_andThen follows (thread.andThen (plug inner))

/-- A byte is taken by the part, or by what follows, as it follows an empty part. -/
theorem derive_plug_of_exit (exits : part.exit = some []) :
    (plug frames part).derive code = (part.derive code).map (Thread.andThen · (plug frames)) ++
      (plug frames empty).derive code := by
  induction frames with
  | nil => exact ((List.append_nil _).trans (List.map_id' _)).symm
  | cons frame inner ih =>
      have same := exit_plug_of_exit inner exits
      cases frame with
      | before second =>
          rw [plug_cons, plug_cons, Frame.put, Frame.put, derive, derive, same, ih, List.map_append,
            List.map_map, List.append_assoc]
          rfl
      | leaving order action =>
          rw [plug_cons, plug_cons, Frame.put, Frame.put, derive, derive, ih, List.map_append,
            List.map_map]
          rfl
      | ending order action second follows =>
          rw [plug_cons, plug_cons, Frame.put, Frame.put, derive, derive, derive, derive, same, ih]
          simp only [List.map_append, List.map_map, List.append_assoc]
          congr 1
          apply List.map_congr_left
          intro thread _
          exact finished_andThen follows (thread.andThen (plug inner))

theorem derive_plug_inside (flat : part.plain = true)
    (nothing : (plug frames empty).derive code = []) :
    (plug frames part).derive code = (part.derive code).map (Thread.andThen · (plug frames)) := by
  rcases exit_eq_of_plain flat with stays | exits
  · exact derive_plug_of_stays frames code stays
  · rw [derive_plug_of_exit frames code exits, nothing, List.append_nil]

theorem derive_plug_outside (flat : part.plain = true) (other : part.derive code = []) :
    (plug frames part).derive code =
      if part.exit.isSome then (plug frames empty).derive code else [] := by
  rcases exit_eq_of_plain flat with stays | exits
  · rw [derive_plug_of_stays frames code stays, other, stays]
    rfl
  · rw [derive_plug_of_exit frames code exits, other, exits]
    rfl

end Plug

/-! ## Steps known by their threads -/

section Steps

variable [DecidableEq Action] {cs : List (Machine Action)} {code : UInt8}

omit [DecidableEq Action] in
/-- Without priorities no way to take a byte yields. -/
theorem threads_of_priorities (none : ∀ machine ∈ cs, ∀ thread ∈ machine.derive code,
    thread.priorities = []) : threads cs code = cs.flatMap (derive code) := by
  rw [threads, List.filter_eq_self]
  intro thread member
  obtain ⟨machine, isMachine, isThread⟩ := List.mem_flatMap.mp member
  have yields : ∀ other, thread.yields other = false := by
    intro other
    rw [Thread.yields, none machine isMachine thread isThread, List.any_nil]
  rw [Bool.not_eq_true', List.any_eq_false]
  intro other _
  rw [yields]
  exact Bool.false_ne_true

theorem distinct_sublist {α : Type u} [DecidableEq α] (items : List α) :
    (distinct items).Sublist items := by
  induction items with
  | nil => exact List.Sublist.refl _
  | cons item rest ih =>
      rw [distinct]
      exact (List.filter_sublist.trans ih).cons_cons item

theorem distinct_nodup {α : Type u} [DecidableEq α] (items : List α) : (distinct items).Nodup := by
  induction items with
  | nil => exact List.nodup_nil
  | cons item rest ih =>
      rw [distinct, List.nodup_cons]
      constructor
      · rw [List.mem_filter]
        rintro ⟨-, apart⟩
        exact absurd rfl (of_decide_eq_true apart)
      · exact ih.filter _

/-- One item, again and again. -/
theorem distinct_eq_singleton {α : Type u} [DecidableEq α] {items : List α} {item : α}
    (some : items ≠ []) (same : ∀ other ∈ items, other = item) : distinct items = [item] := by
  obtain ⟨first, rest, rfl⟩ := List.exists_cons_of_ne_nil some
  rw [distinct, same first List.mem_cons_self]
  congr 1
  rw [List.filter_eq_nil_iff]
  intro other member
  have isItem := same other (List.mem_cons_of_mem _ (mem_distinct.mp member))
  rw [isItem, decide_eq_true_eq]
  exact fun apart => apart rfl

section Order

variable {order items : List (Nat × Action)}

/-- The one action does not stand behind the other. -/
def Before (order : List (Nat × Action)) (first second : Action) : Prop :=
  ∃ one other, (one, first) ∈ order ∧ (other, second) ∈ order ∧ one ≤ other

omit [DecidableEq Action] in
theorem Before.antisymm (sorted : order.Pairwise (·.1 < ·.1))
    (different : (order.map Prod.snd).Nodup) {first second : Action}
    (before : Before order first second) (after : Before order second first) : first = second := by
  obtain ⟨one, other, isOne, isOther, ordered⟩ := before
  obtain ⟨another, more, isAnother, isMore, back⟩ := after
  have same : one = more := congrArg Prod.fst
    (List.inj_on_of_nodup_map different isOne isMore rfl)
  have sameToo : other = another := congrArg Prod.fst
    (List.inj_on_of_nodup_map different isOther isAnother rfl)
  have numbers : (order.map Prod.fst).Nodup :=
    List.pairwise_map.mpr (sorted.imp fun less => Nat.ne_of_lt less)
  have equal : one = other := by omega
  exact congrArg Prod.snd (List.inj_on_of_nodup_map numbers isOne isOther equal)

omit [DecidableEq Action] in
theorem before_of_sorted (within : ∀ item ∈ items, item ∈ order)
    (sorted : items.Pairwise (·.1 ≤ ·.1)) : (items.map Prod.snd).Pairwise (Before order) := by
  rw [List.pairwise_map]
  refine sorted.imp_of_mem fun {first second} isFirst isSecond ordered => ?_
  exact ⟨first.1, second.1, within first isFirst, within second isSecond, ordered⟩

/-- The actions of `order`, however often each is there, are performed in its order. -/
theorem distinct_actions (sorted : order.Pairwise (·.1 < ·.1))
    (different : (order.map Prod.snd).Nodup) (within : ∀ item ∈ items, item ∈ order)
    (all : ∀ item ∈ order, item ∈ items) :
    distinct ((items.insertionSort fun first second => first.1 ≤ second.1).map Prod.snd) =
      order.map Prod.snd := by
  have total : Std.Total fun first second : Nat × Action => first.1 ≤ second.1 :=
    ⟨fun first second => Nat.le_total first.1 second.1⟩
  have transitive : IsTrans (Nat × Action) fun first second => first.1 ≤ second.1 :=
    ⟨fun _ _ _ => Nat.le_trans⟩
  have inOrder := List.pairwise_insertionSort (fun first second : Nat × Action =>
    first.1 ≤ second.1) items
  have members : ∀ item, item ∈ items.insertionSort (fun first second => first.1 ≤ second.1) ↔
      item ∈ items := fun item => List.mem_insertionSort _
  apply List.Perm.eq_of_pairwise
    (fun first second _ _ before after => Before.antisymm sorted different before after)
  · exact (before_of_sorted (fun item member => within item ((members item).mp member))
      inOrder).sublist (distinct_sublist _)
  · exact before_of_sorted (fun _ => id) (sorted.imp Nat.le_of_lt)
  · rw [List.perm_ext_iff_of_nodup (distinct_nodup _) different]
    intro action
    rw [mem_distinct, List.mem_map, List.mem_map]
    constructor
    · rintro ⟨item, member, rfl⟩
      exact ⟨item, within item ((members item).mp member), rfl⟩
    · rintro ⟨item, member, rfl⟩
      exact ⟨item, (members item).mpr (all item member), rfl⟩

end Order

/-- The actions of a step, when all threads together have those of `order`. -/
theorem step_of_threads {order : List (Nat × Action)} (sorted : order.Pairwise (·.1 < ·.1))
    (different : (order.map Prod.snd).Nodup) (ways : threads cs code ≠ [])
    (within : ∀ thread ∈ threads cs code, ∀ item ∈ thread.actions, item ∈ order)
    (all : ∀ item ∈ order, ∃ thread ∈ threads cs code, item ∈ thread.actions) :
    step cs code = some (distinct ((threads cs code).map Thread.rest), order.map Prod.snd) := by
  have actions := @distinct_actions _ _ order ((threads cs code).flatMap Thread.actions) sorted
    different
    (fun item member => by
      obtain ⟨thread, isThread, isItem⟩ := List.mem_flatMap.mp member
      exact within thread isThread item isItem)
    fun item member => List.mem_flatMap.mpr (all item member)
  rw [step]
  split
  next nothing => exact absurd nothing ways
  next =>
    dsimp only
    rw [actions]

/-! ## Runs over a part -/

/-- The state has the machines of `inner` in their frames, and others besides. -/
structure Shows (frames : List (Frame Action)) (inner : List (Machine Action))
    (other : Machine Action → Prop) (cs : List (Machine Action)) : Prop where
  has : ∀ machine ∈ inner, plug frames machine ∈ cs
  only : ∀ machine ∈ cs, (∃ part ∈ inner, machine = plug frames part) ∨ other machine
  flat : ∀ machine ∈ inner, machine.plain = true

/-- A way to take a byte that performs nothing and keeps to some machines. -/
structure Thread.Quiet (next : Machine Action → Prop) (thread : Thread Action) : Prop where
  rest : next thread.rest
  actions : thread.actions = []
  priorities : thread.priorities = []

variable {frames : List (Frame Action)} {inner : List (Machine Action)}
  {other next : Machine Action → Prop}

omit [DecidableEq Action] in
theorem shows_map (flat : ∀ machine ∈ inner, machine.plain = true) :
    Shows frames inner (fun _ => False) (inner.map (plug frames)) where
  has := fun _ member => List.mem_map_of_mem member
  only := fun _ member =>
    have ⟨part, isPart, same⟩ := List.mem_map.mp member
    .inl ⟨part, isPart, same.symm⟩
  flat := flat

/-- The threads of a part without actions. -/
theorem mem_of_derive (areFlat : ∀ machine ∈ inner, machine.plain = true)
    {after : List (Machine Action)} {actions : List Action}
    (goes : Machine.step inner code = some (after, actions)) (rest : Machine Action) :
    rest ∈ after ↔ ∃ machine ∈ inner, ∃ thread ∈ machine.derive code, thread.rest = rest := by
  have ways : threads inner code = inner.flatMap (derive code) :=
    threads_of_priorities fun machine member thread isThread =>
      (derive_plain (areFlat machine member) isThread).priorities
  obtain ⟨-, left, right, -⟩ := step_spec goes
  constructor
  · intro member
    obtain ⟨thread, isThread, rfl⟩ := left rest member
    rw [ways, List.mem_flatMap] at isThread
    obtain ⟨machine, isMachine, derived⟩ := isThread
    exact ⟨machine, isMachine, thread, derived, rfl⟩
  · rintro ⟨machine, isMachine, thread, derived, rfl⟩
    apply right
    rw [ways, List.mem_flatMap]
    exact ⟨machine, isMachine, derived⟩

/-- What is left of a part without actions has none. -/
theorem plain_walk (areFlat : ∀ machine ∈ inner, machine.plain = true) (text : List UInt8) :
    ∀ machine ∈ walk inner text, machine.plain = true := by
  induction text generalizing inner with
  | nil => exact areFlat
  | cons byte rest ih =>
      rw [walk]
      split
      next =>
        intro machine member
        cases member
      next after actions goes =>
        apply ih
        intro machine member
        obtain ⟨source, isSource, thread, derived, rfl⟩ := (mem_of_derive areFlat goes machine).mp member
        exact (derive_plain (areFlat source isSource) derived).rest

/-- The bytes of a state that performs nothing. -/
theorem step_quiet {Next : Machine Action → Prop}
    (quiet : ∀ machine ∈ cs, ∀ thread ∈ machine.derive code, thread.Quiet Next)
    {source : Machine Action} (member : source ∈ cs) {thread : Thread Action}
    (derived : thread ∈ source.derive code) :
    ∃ cs', Machine.step cs code = some (cs', []) ∧ (∀ machine ∈ cs', Next machine) ∧
      ∀ machine ∈ cs, ∀ thread ∈ machine.derive code, thread.rest ∈ cs' := by
  have ways : threads cs code = cs.flatMap (derive code) :=
    threads_of_priorities fun machine member thread isThread =>
      (quiet machine member thread isThread).priorities
  have some : threads cs code ≠ [] := by
    rw [ways]
    exact List.ne_nil_of_mem (List.mem_flatMap.mpr ⟨source, member, derived⟩)
  refine ⟨_, step_of_threads List.Pairwise.nil List.nodup_nil some ?_ ?_, ?_, ?_⟩
  · intro thread isThread item isItem
    rw [ways, List.mem_flatMap] at isThread
    obtain ⟨machine, isMachine, isThread⟩ := isThread
    rw [(quiet machine isMachine thread isThread).actions] at isItem
    cases isItem
  · intro item isItem
    cases isItem
  · intro machine isRest
    rw [mem_distinct, List.mem_map, ways] at isRest
    obtain ⟨thread, isThread, rfl⟩ := isRest
    obtain ⟨machine, isMachine, isThread⟩ := List.mem_flatMap.mp isThread
    exact (quiet machine isMachine thread isThread).rest
  · intro machine isMachine thread isThread
    rw [mem_distinct, ways]
    exact List.mem_map_of_mem (List.mem_flatMap.mpr ⟨machine, isMachine, isThread⟩)

/-- A byte of the part, on which nothing is performed. -/
theorem Shows.step (shows : Shows frames inner other cs)
    (nothing : (plug frames empty).derive code = [])
    (others : ∀ machine, other machine → ∀ thread ∈ machine.derive code, thread.Quiet next)
    {after : List (Machine Action)} {actions : List Action}
    (goes : Machine.step inner code = some (after, actions)) :
    ∃ cs', Machine.step cs code = some (cs', []) ∧ Shows frames after next cs' := by
  have members := mem_of_derive shows.flat goes
  have quiet : ∀ machine ∈ cs, ∀ thread ∈ machine.derive code,
      thread.Quiet fun rest => (∃ part ∈ after, rest = plug frames part) ∨ next rest := by
    intro machine member thread derived
    rcases shows.only machine member with ⟨part, isPart, rfl⟩ | isOther
    · rw [derive_plug_inside frames code (shows.flat part isPart) nothing] at derived
      obtain ⟨inside, isInside, rfl⟩ := List.mem_map.mp derived
      have flat := derive_plain (shows.flat part isPart) isInside
      have kept := (members inside.rest).mpr ⟨part, isPart, inside, isInside, rfl⟩
      exact ⟨.inl ⟨inside.rest, kept, rfl⟩, flat.actions, flat.priorities⟩
    · obtain ⟨rest, actions, priorities⟩ := others machine isOther thread derived
      exact ⟨.inr rest, actions, priorities⟩
  have derived : ∀ part ∈ inner, ∀ inside ∈ part.derive code,
      inside.andThen (plug frames) ∈ (plug frames part).derive code := by
    intro part isPart inside isInside
    rw [derive_plug_inside frames code (shows.flat part isPart) nothing]
    exact List.mem_map_of_mem isInside
  obtain ⟨first, isFirst⟩ := List.exists_mem_of_ne_nil _ (step_spec goes).1
  obtain ⟨source, isSource, thread, isThread, -⟩ := (members first).mp isFirst
  obtain ⟨cs', stepped, only, has⟩ :=
    step_quiet quiet (shows.has source isSource) (derived source isSource thread isThread)
  refine ⟨cs', stepped, ?_, only, ?_⟩
  · intro machine member
    obtain ⟨part, isPart, inside, isInside, rfl⟩ := (members machine).mp member
    exact has _ (shows.has part isPart) _ (derived part isPart inside isInside)
  · intro machine member
    obtain ⟨part, isPart, inside, isInside, rfl⟩ := (members machine).mp member
    exact (derive_plain (shows.flat part isPart) isInside).rest

/-- A text of the part, on which nothing is performed. -/
theorem Shows.run {text : List UInt8} (shows : Shows frames inner (fun _ => False) cs)
    (nothing : ∀ code ∈ text, (plug frames empty).derive code = [])
    (alive : walk inner text ≠ []) :
    ∃ cs', trace cs text = some (List.replicate text.length [], cs') ∧
      Shows frames (walk inner text) (fun _ => False) cs' := by
  induction text generalizing inner cs with
  | nil => exact ⟨cs, rfl, shows⟩
  | cons byte rest ih =>
      rw [walk] at alive ⊢
      split at alive
      next => exact absurd rfl alive
      next after actions goes =>
        obtain ⟨mid, stepped, shown⟩ := shows.step (nothing byte List.mem_cons_self)
          (fun _ isOther => isOther.elim) goes
        obtain ⟨last, traced, shownLast⟩ := ih shown
          (fun code member => nothing code (List.mem_cons_of_mem _ member)) alive
        exact ⟨last, trace_cons stepped traced, shownLast⟩

/-- The machine takes the byte in one way, whose actions have an order. -/
def single (machine : Machine Action) (code : UInt8) : Bool :=
  match machine.derive code with
  | [thread] => thread.priorities.isEmpty && thread.actions.Pairwise (·.1 < ·.1) &&
      (thread.actions.map Prod.snd).Nodup
  | _ => false

theorem single_spec {machine : Machine Action} (one : machine.single code = true) :
    ∃ thread, machine.derive code = [thread] ∧ thread.priorities = [] ∧
      thread.actions.Pairwise (·.1 < ·.1) ∧ (thread.actions.map Prod.snd).Nodup := by
  rw [single] at one
  split at one
  next thread derived =>
    simp only [Bool.and_eq_true, decide_eq_true_eq, List.isEmpty_iff] at one
    exact ⟨thread, derived, one.1.1, one.1.2, one.2⟩
  next => cases one

/-- A byte that all threads take in the same way. -/
theorem step_of_same {thread : Thread Action}
    (same : ∀ machine ∈ cs, ∀ other ∈ machine.derive code, other = thread)
    {source : Machine Action} (member : source ∈ cs) (derived : thread ∈ source.derive code)
    (equal : thread.priorities = []) (sorted : thread.actions.Pairwise (·.1 < ·.1))
    (different : (thread.actions.map Prod.snd).Nodup) :
    Machine.step cs code = some ([thread.rest], thread.actions.map Prod.snd) := by
  have all : threads cs code = cs.flatMap (derive code) :=
    threads_of_priorities fun machine isMachine way isWay =>
      same machine isMachine way isWay ▸ equal
  have there : thread ∈ threads cs code := by
    rw [all]
    exact List.mem_flatMap.mpr ⟨source, member, derived⟩
  have only : ∀ way ∈ threads cs code, way = thread := by
    intro way isWay
    rw [all, List.mem_flatMap] at isWay
    obtain ⟨machine, isMachine, isWay⟩ := isWay
    exact same machine isMachine way isWay
  have rests : distinct ((threads cs code).map Thread.rest) = [thread.rest] := by
    apply distinct_eq_singleton (List.ne_nil_of_mem (List.mem_map_of_mem there))
    intro rest member
    obtain ⟨way, isWay, rfl⟩ := List.mem_map.mp member
    rw [only way isWay]
  rw [← rests]
  apply step_of_threads sorted different (List.ne_nil_of_mem there)
  · intro way isWay item isItem
    rwa [only way isWay] at isItem
  · exact fun item isItem => ⟨thread, there, isItem⟩

/-- The byte behind the part does what it does behind an empty part. -/
theorem Shows.leave (shows : Shows frames inner other cs)
    (nothing : ∀ machine ∈ inner, machine.derive code = [])
    (others : ∀ machine, other machine → machine.derive code = [])
    (one : (plug frames empty).single code = true) (stops : final inner = true) :
    Machine.step cs code = Machine.step [plug frames empty] code := by
  obtain ⟨thread, derived, equal, sorted, different⟩ := single_spec one
  have ways : ∀ part ∈ inner, (plug frames part).derive code =
      if part.exit.isSome then [thread] else [] := by
    intro part isPart
    rw [derive_plug_outside frames code (shows.flat part isPart) (nothing part isPart), derived]
  have same : ∀ machine ∈ cs, ∀ way ∈ machine.derive code, way = thread := by
    intro machine member way isWay
    rcases shows.only machine member with ⟨part, isPart, rfl⟩ | isOther
    · rw [ways part isPart] at isWay
      split at isWay
      next => exact List.mem_singleton.mp isWay
      next => cases isWay
    · rw [others machine isOther] at isWay
      cases isWay
  have alone : ∀ machine ∈ [plug frames empty], ∀ way ∈ machine.derive code, way = thread := by
    intro machine member way isWay
    rw [List.mem_singleton.mp member, derived] at isWay
    exact List.mem_singleton.mp isWay
  obtain ⟨part, isPart, exits⟩ := List.any_eq_true.mp stops
  have here : thread ∈ (plug frames part).derive code := by
    rw [ways part isPart, if_pos exits]
    exact List.mem_singleton.mpr rfl
  have there : thread ∈ (plug frames empty).derive code := by
    rw [derived]
    exact List.mem_singleton.mpr rfl
  rw [step_of_same same (shows.has part isPart) here equal sorted different,
    step_of_same alone (List.mem_singleton.mpr rfl) there equal sorted different]

end Steps

end Library.Machine
