import Exhy.Library.Machine
import Mathlib.Tactic.Cases

/-!
# Runs with effects

What the actions of a machine do to a state of the program while it runs over a text.  Where
the moves of the machine are known for whole classes of bytes, so is the run.
-/

namespace Library.Machine

universe u v

variable {Action : Type u} {State : Type v} (effect : Nat → Action → State → Option State)
  (breaks : Action → Bool)

/-- The actions on one byte, up to the one that breaks the run; says whether it broke. -/
def perform (place : Nat) : List Action → State → Option (State × Bool)
  | [], state => some (state, false)
  | action :: later, state =>
      match effect place action state with
      | none => none
      | some state => if breaks action then some (state, true) else perform place later state

variable {effect breaks} in
theorem perform_cons {place : Nat} {action : Action} {later : List Action} {state after : State}
    (done : effect place action state = some after) (quiet : breaks action = false) :
    perform effect breaks place (action :: later) state =
      perform effect breaks place later after := by
  rw [perform, done]
  dsimp only
  rw [quiet, if_neg Bool.false_ne_true]

variable {effect breaks} in
/-- What each of the actions on a byte keeps, they keep. -/
theorem perform_keeps (Kept : State → Prop) {state after : State} {place : Nat}
    {actions : List Action} {broke : Bool}
    (keeps : ∀ action ∈ actions, ∀ state after, effect place action state = some after →
      Kept state → Kept after)
    (performed : perform effect breaks place actions state = some (after, broke))
    (kept : Kept state) : Kept after := by
  induction actions generalizing state with
  | nil =>
      cases performed
      exact kept
  | cons action later ih =>
      rw [perform] at performed
      cases done : effect place action state with
      | none =>
          rw [done] at performed
          cases performed
      | some next =>
          rw [done] at performed
          have keptToo := keeps action List.mem_cons_self state next done kept
          dsimp only at performed
          split at performed
          next =>
            cases performed
            exact keptToo
          next =>
            exact ih (fun other member => keeps other (List.mem_cons_of_mem _ member)) performed
              keptToo

variable [DecidableEq Action]

/-- The run over the bytes, with the state of the machine and the position where it stops. -/
def exec : List UInt8 → Nat → List (Machine Action) → State →
    Option (State × List (Machine Action) × Nat)
  | [], place, cs, state => some (state, cs, place)
  | byte :: rest, place, cs, state =>
      match step cs byte with
      | none => some (state, [], place)
      | some (next, actions) =>
          match perform effect breaks place actions state with
          | none => none
          | some (state, true) => some (state, next, place + 1)
          | some (state, false) => exec rest (place + 1) next state

variable {effect breaks} in
/-- What the actions keep that the machine performs from its states on, a run keeps. -/
theorem exec_keeps_from (Ready : List (Machine Action) → Prop) (Kept : State → Prop)
    {state after : State}
    (keeps : ∀ cs byte next actions, Ready cs → step cs byte = some (next, actions) →
      Ready next ∧ ∀ place, ∀ action ∈ actions, ∀ state after,
        effect place action state = some after → Kept state → Kept after)
    {text : List UInt8} {place stop : Nat} {cs final : List (Machine Action)}
    (ran : exec effect breaks text place cs state = some (after, final, stop))
    (ready : Ready cs) (kept : Kept state) : Kept after := by
  induction text generalizing place cs state with
  | nil =>
      cases ran
      exact kept
  | cons byte rest ih =>
      rw [exec] at ran
      split at ran
      next =>
        cases ran
        exact kept
      next next actions stepped =>
        obtain ⟨readyNext, keepsHere⟩ := keeps cs byte next actions ready stepped
        split at ran
        next => cases ran
        next state performed =>
          cases ran
          exact perform_keeps Kept (keepsHere place) performed kept
        next state performed =>
          exact ih ran readyNext (perform_keeps Kept (keepsHere place) performed kept)

variable {effect breaks} in
/-- What every action keeps, a run keeps. -/
theorem exec_keeps (Kept : State → Prop) {state after : State}
    (keeps : ∀ place action state after, effect place action state = some after →
      Kept state → Kept after)
    {text : List UInt8} {place stop : Nat} {cs final : List (Machine Action)}
    (ran : exec effect breaks text place cs state = some (after, final, stop))
    (kept : Kept state) : Kept after := by
  apply exec_keeps_from (fun _ => True) Kept _ ran trivial kept
  intro cs byte next actions _ _
  exact ⟨trivial, fun place action _ => keeps place action⟩

/-- The state of the machine behind a text. -/
def walk (cs : List (Machine Action)) : List UInt8 → List (Machine Action)
  | [] => cs
  | byte :: rest =>
      match step cs byte with
      | none => []
      | some (next, _) => walk next rest

/-! ## Known moves -/

/-- On each of those bytes the machine goes from one state to the other with those actions. -/
def moves (cs : List (Machine Action)) (ranges : List (UInt8 × UInt8))
    (next : List (Machine Action)) (actions : List Action) : Bool :=
  (List.range 256).all fun code =>
    !inRanges ranges code.toUInt8 || step cs code.toUInt8 = some (next, actions)

variable {effect breaks} {cs next : List (Machine Action)} {ranges : List (UInt8 × UInt8)}
  {actions : List Action}

theorem step_of_moves (known : moves cs ranges next actions = true) {code : UInt8}
    (member : inRanges ranges code = true) : step cs code = some (next, actions) := by
  have here := List.all_eq_true.mp known code.toNat (List.mem_range.mpr (UInt8.toNat_lt code))
  simpa [member] using here

/-- A byte behind which the run goes on. -/
theorem exec_move (known : moves cs ranges next actions = true) {code : UInt8}
    (member : inRanges ranges code = true) {place : Nat} {state after : State}
    (performed : perform effect breaks place actions state = some (after, false))
    (rest : List UInt8) :
    exec effect breaks (code :: rest) place cs state =
      exec effect breaks rest (place + 1) next after := by
  rw [exec, step_of_moves known member]
  dsimp only
  rw [performed]

/-- A byte that breaks the run. -/
theorem exec_last (known : moves cs ranges next actions = true) {code : UInt8}
    (member : inRanges ranges code = true) {place : Nat} {state after : State}
    (performed : perform effect breaks place actions state = some (after, true))
    (rest : List UInt8) :
    exec effect breaks (code :: rest) place cs state = some (after, next, place + 1) := by
  rw [exec, step_of_moves known member]
  dsimp only
  rw [performed]

/-- Bytes that change nothing. -/
theorem exec_loop (known : moves cs ranges cs [] = true) {text : List UInt8}
    (members : ∀ code ∈ text, inRanges ranges code = true) (rest : List UInt8) (place : Nat)
    (state : State) :
    exec effect breaks (text ++ rest) place cs state =
      exec effect breaks rest (place + text.length) cs state := by
  induction text generalizing place with
  | nil => rfl
  | cons code later ih =>
      rw [List.cons_append, exec_move known (members code List.mem_cons_self) rfl,
        ih fun other member => members other (List.mem_cons_of_mem _ member), List.length_cons,
        show place + 1 + later.length = place + (later.length + 1) by omega]

/-- A word: an action on its first byte, and then nothing. -/
theorem exec_word {action : Action} (first : moves cs ranges next [action] = true)
    (more : moves next ranges next [] = true) {word : List UInt8} (nonempty : word ≠ [])
    (members : ∀ code ∈ word, inRanges ranges code = true) {place : Nat} {state after : State}
    (done : effect place action state = some after) (quiet : breaks action = false)
    (rest : List UInt8) :
    exec effect breaks (word ++ rest) place cs state =
      exec effect breaks rest (place + word.length) next after := by
  obtain ⟨code, later, rfl⟩ := List.exists_cons_of_ne_nil nonempty
  have performed : perform effect breaks place [action] state = some (after, false) :=
    perform_cons done quiet
  rw [List.cons_append, exec_move first (members code List.mem_cons_self) performed,
    exec_loop more fun other member => members other (List.mem_cons_of_mem _ member),
    List.length_cons, show place + 1 + later.length = place + (later.length + 1) by omega]

end Library.Machine
