import Exhy.Library.Transition
import Exhy.Log.Core

/-!
# Inherited formatters

Which formatter the appenders of a logger use, over any sequence of the calls that attach
them and that change formatters.  An appender of which the user has set no formatter should
use that of its logger.  `addAppender` sets it with `setFormatter` and so marks it as the
appender's own, and the pattern overload of `setFormatter` reaches no appender.
-/

namespace Exhy.Log

open Library

/-- The loggers and appenders of a program, with what the user has done: whether
`setFormatter` was called on an appender, and the last formatter, other than null, that it was
called with. -/
structure State (LoggerId AppenderId : Type) where
  loggers : LoggerId → Logger AppenderId
  appenders : AppenderId → LogAppender
  called : AppenderId → Bool
  given : AppenderId → Option LogFormatter

/-- A call of the user. -/
inductive Call (LoggerId AppenderId : Type) where
  | addAppender (logger : LoggerId) (appender : AppenderId)
  | setFormatter (logger : LoggerId) (val : Option LogFormatter)
  | setPattern (logger : LoggerId) (val : Bytes)
  | setAppenderFormatter (appender : AppenderId) (val : Option LogFormatter)

variable {LoggerId AppenderId : Type} [DecidableEq LoggerId] [DecidableEq AppenderId]

namespace State

/-- A logger after a call, and the appenders that it leaves. -/
def put (state : State LoggerId AppenderId) (logger : LoggerId)
    (result : Logger AppenderId × (AppenderId → LogAppender)) : State LoggerId AppenderId :=
  { state with
    loggers := Function.update state.loggers logger result.1
    appenders := result.2 }

def setFormatter (state : State LoggerId AppenderId) (logger : LoggerId)
    (val : Option LogFormatter) : State LoggerId AppenderId :=
  state.put logger ((state.loggers logger).setFormatter val state.appenders)

def setPattern (state : State LoggerId AppenderId) (logger : LoggerId) (val : Bytes) :
    State LoggerId AppenderId :=
  state.put logger ((state.loggers logger).setPattern val, state.appenders)

def perform (state : State LoggerId AppenderId) : Call LoggerId AppenderId →
    State LoggerId AppenderId
  | .addAppender logger appender =>
      state.put logger ((state.loggers logger).addAppender appender state.appenders)
  | .setFormatter logger val => state.setFormatter logger val
  | .setPattern logger val => state.setPattern logger val
  | .setAppenderFormatter appender val =>
      { state with
        appenders :=
          Function.update state.appenders appender ((state.appenders appender).setFormatter val)
        called := Function.update state.called appender true
        given :=
          if val.isSome then Function.update state.given appender val else state.given }

/-- The appender is in the list of the logger. -/
def Attached (state : State LoggerId AppenderId) (logger : LoggerId) (appender : AppenderId) :
    Prop :=
  appender ∈ (state.loggers logger).m_appenders

instance (state : State LoggerId AppenderId) (logger : LoggerId) (appender : AppenderId) :
    Decidable (state.Attached logger appender) :=
  inferInstanceAs (Decidable (appender ∈ (state.loggers logger).m_appenders))

/-- The logger has an appender on which the user has not called `setFormatter`. -/
def HasHeir (state : State LoggerId AppenderId) (logger : LoggerId) : Prop :=
  ∃ appender, state.Attached logger appender ∧ state.called appender = false

/-- Every attached appender uses the formatter that it should, and the overloads of
`setFormatter` agree. -/
structure Inherits (state : State LoggerId AppenderId) : Prop where
  inherited : ∀ logger appender, state.Attached logger appender → state.called appender = false →
    (state.appenders appender).m_formatter = (state.loggers logger).m_formatter
  own : ∀ logger appender, state.Attached logger appender → ∀ formatter,
    state.given appender = some formatter →
      (state.appenders appender).m_formatter = some formatter
  overloads : ∀ logger val, (LogFormatter.mk val).isError = false →
    state.setPattern logger val = state.setFormatter logger (some ⟨val⟩)

/-- The call attaches no appender to a second logger. -/
def OneLogger (state : State LoggerId AppenderId) : Call LoggerId AppenderId → Prop
  | .addAppender logger appender => ∀ other, state.Attached other appender → other = logger
  | .setFormatter _ _ | .setPattern _ _ | .setAppenderFormatter _ _ => True

/-- The call does not change the formatter of a logger with an heir, takes none away from an
attached appender, and attaches an appender that has none only where it inherits one. -/
def Harmless (state : State LoggerId AppenderId) : Call LoggerId AppenderId → Prop
  | .addAppender logger appender =>
      (state.appenders appender).m_formatter.isSome ∨
        (state.loggers logger).m_formatter.isSome ∧ ∀ formatter,
          state.given appender = some formatter →
            (state.loggers logger).m_formatter = some formatter
  | .setFormatter logger val => ¬ state.HasHeir logger ∨ val = (state.loggers logger).m_formatter
  | .setPattern logger val =>
      ¬ state.HasHeir logger ∨ (LogFormatter.mk val).isError = true ∨
        some ⟨val⟩ = (state.loggers logger).m_formatter
  | .setAppenderFormatter appender val => val.isSome ∨ ∀ logger, ¬ state.Attached logger appender

end State

/-- New loggers and appenders, and any calls. -/
def calls : System (State LoggerId AppenderId) (Call LoggerId AppenderId) where
  initial state :=
    (∀ logger, (state.loggers logger).m_formatter = some ⟨defaultPattern⟩ ∧
      (state.loggers logger).m_appenders = []) ∧
    (∀ appender, (state.appenders appender).m_formatter = none ∧
      (state.appenders appender).m_hasFormatter = false ∧ state.called appender = false ∧
      state.given appender = none)
  step state call next := next = state.perform call

namespace State

variable {state : State LoggerId AppenderId} {logger other : LoggerId}
  {appender another : AppenderId} {val : Option LogFormatter}

/-! ## What a call changes -/

theorem attached_addAppender : (state.perform (.addAppender logger appender)).Attached other another ↔
    state.Attached other another ∨ other = logger ∧ another = appender := by
  rw [Attached, Attached, perform, put]
  by_cases same : other = logger
  · subst same
    simp [Logger.addAppender]
  · simp [same]

theorem m_formatter_addAppender :
    ((state.perform (.addAppender logger appender)).loggers other).m_formatter =
      (state.loggers other).m_formatter := by
  rw [perform, put]
  by_cases same : other = logger
  · subst same
    simp [Logger.addAppender]
  · simp [same]

theorem appenders_addAppender :
    (state.perform (.addAppender logger appender)).appenders another =
      if another = appender ∧ (state.appenders appender).m_formatter = none then
        (state.appenders appender).setFormatter (state.loggers logger).m_formatter
      else state.appenders another := by
  rw [perform, put, Logger.addAppender]
  cases own : (state.appenders appender).m_formatter with
  | none =>
      by_cases same : another = appender
      · simp [same]
      · simp [same]
  | some formatter => simp

theorem attached_setFormatter :
    (state.setFormatter logger val).Attached other another ↔ state.Attached other another := by
  rw [Attached, Attached, setFormatter, put]
  by_cases same : other = logger
  · subst same
    simp [Logger.setFormatter]
  · simp [same]

theorem m_formatter_setFormatter :
    ((state.setFormatter logger val).loggers other).m_formatter =
      if other = logger then val else (state.loggers other).m_formatter := by
  rw [setFormatter, put]
  by_cases same : other = logger
  · subst same
    simp [Logger.setFormatter]
  · simp [same]

theorem appenders_setFormatter :
    (state.setFormatter logger val).appenders another =
      if state.Attached logger another ∧ (state.appenders another).m_hasFormatter = false then
        { state.appenders another with m_formatter := val }
      else state.appenders another := by
  rw [setFormatter, put, Logger.setFormatter]
  exact Logger.foldl_inherit val _ _ another

omit [DecidableEq AppenderId] in
theorem setPattern_of_error {pattern : Bytes} (error : (LogFormatter.mk pattern).isError = true) :
    state.setPattern logger pattern = state := by
  rw [setPattern, put, Logger.setPattern, if_pos error, Function.update_eq_self]

/-! ## What every harmless run keeps -/

/-- Every attached appender has a formatter, which is its own for the code. -/
structure Kept (state : State LoggerId AppenderId) : Prop where
  flag : ∀ appender, (state.appenders appender).m_hasFormatter =
    (state.appenders appender).m_formatter.isSome
  attached : ∀ logger appender, state.Attached logger appender →
    (state.appenders appender).m_formatter.isSome
  single : ∀ logger other appender, state.Attached logger appender →
    state.Attached other appender → other = logger
  free : ∀ appender formatter, (∀ logger, ¬ state.Attached logger appender) →
    (state.appenders appender).m_formatter = some formatter →
      state.called appender = true ∧ state.given appender = some formatter
  known : ∀ appender formatter, state.given appender = some formatter →
    state.called appender = true
  inherited : ∀ logger appender, state.Attached logger appender → state.called appender = false →
    (state.appenders appender).m_formatter = (state.loggers logger).m_formatter
  own : ∀ logger appender, state.Attached logger appender → ∀ formatter,
    state.given appender = some formatter →
      (state.appenders appender).m_formatter = some formatter

theorem Kept.appenders_eq (kept : state.Kept) :
    (state.setFormatter logger val).appenders = state.appenders := by
  funext another
  rw [appenders_setFormatter]
  apply if_neg
  rintro ⟨attached, noFlag⟩
  have has := kept.attached logger another attached
  rw [← kept.flag, noFlag] at has
  cases has

theorem Kept.overloads (kept : state.Kept) (logger : LoggerId) {pattern : Bytes}
    (valid : (LogFormatter.mk pattern).isError = false) :
    state.setPattern logger pattern = state.setFormatter logger (some ⟨pattern⟩) := by
  have same : (state.setFormatter logger (some ⟨pattern⟩)).appenders = state.appenders :=
    kept.appenders_eq
  rw [setFormatter, put] at same ⊢
  dsimp only at same
  rw [same, setPattern, put, Logger.setPattern, valid]
  rfl

theorem Kept.inherits (kept : state.Kept) : state.Inherits :=
  ⟨kept.inherited, kept.own, fun logger _ valid => kept.overloads logger valid⟩

/-- Where the overloads agree, every attached appender has a formatter of its own for the
code. -/
theorem Inherits.flag (inherits : state.Inherits) (attached : state.Attached logger appender) :
    (state.appenders appender).m_hasFormatter = true := by
  by_contra noFlag
  have noOwn : (state.appenders appender).m_hasFormatter = false := Bool.of_not_eq_true noFlag
  -- one of two valid patterns is not the one that the appender has
  have differs : ∀ pattern, (LogFormatter.mk pattern).isError = false →
      (state.appenders appender).m_formatter = some ⟨pattern⟩ := by
    intro pattern valid
    have same := congrArg (fun other => (other.appenders appender).m_formatter)
      (inherits.overloads logger pattern valid)
    rw [appenders_setFormatter, if_pos ⟨attached, noOwn⟩] at same
    exact same
  have empty := differs [] (by decide)
  rw [differs (ascii "a") (by decide)] at empty
  exact absurd empty (by decide)

/-! ## One call -/

omit [DecidableEq LoggerId] [DecidableEq AppenderId] in
/-- An appender that has a formatter before it is attached: the user's, or that of its logger. -/
theorem Kept.has (kept : state.Kept) (one : state.OneLogger (.addAppender logger appender))
    {formatter : LogFormatter}
    (has : (state.appenders appender).m_formatter = some formatter) :
    (state.called appender = false → (state.loggers logger).m_formatter = some formatter) ∧
      ∀ own, state.given appender = some own → own = formatter := by
  by_cases anywhere : ∃ other, state.Attached other appender
  · obtain ⟨other, attached⟩ := anywhere
    obtain rfl : other = logger := one other attached
    constructor
    · exact fun isHeir => (kept.inherited other appender attached isHeir).symm.trans has
    · intro own isGiven
      exact Option.some.inj ((kept.own other appender attached own isGiven).symm.trans has)
  · obtain ⟨isCalled, isGiven⟩ :=
      kept.free appender formatter (fun other attached => anywhere ⟨other, attached⟩) has
    constructor
    · intro isHeir
      rw [isHeir] at isCalled
      cases isCalled
    · exact fun own isOwn => Option.some.inj (isOwn.symm.trans isGiven)

theorem Kept.addAppender (kept : state.Kept)
    (one : state.OneLogger (.addAppender logger appender))
    (harmless : state.Harmless (.addAppender logger appender)) :
    (state.perform (.addAppender logger appender)).Kept := by
  have before : ∀ other another, state.Attached other another →
      (state.perform (.addAppender logger appender)).appenders another =
        state.appenders another := by
    intro other another attached
    rw [appenders_addAppender]
    apply if_neg
    rintro ⟨rfl, none⟩
    have has := kept.attached other another attached
    rw [none] at has
    cases has
  have here : ((state.perform (.addAppender logger appender)).appenders appender).m_formatter =
      if (state.appenders appender).m_formatter = none then (state.loggers logger).m_formatter
      else (state.appenders appender).m_formatter := by
    rw [appenders_addAppender]
    by_cases none : (state.appenders appender).m_formatter = none
    · rw [if_pos ⟨rfl, none⟩, if_pos none]
      rfl
    · rw [if_neg (fun both => none both.2), if_neg none]
  constructor
  case flag =>
    intro another
    rw [appenders_addAppender]
    split
    · rfl
    · exact kept.flag another
  case attached =>
    intro other another attached
    rcases attached_addAppender.mp attached with already | ⟨rfl, rfl⟩
    · rw [before other another already]
      exact kept.attached other another already
    · rw [here]
      split
      next none =>
        rcases harmless with has | ⟨has, -⟩
        · rw [none] at has
          cases has
        · exact has
      next some => exact Option.isSome_iff_ne_none.mpr some
  case single =>
    intro first second another inFirst inSecond
    rcases attached_addAppender.mp inFirst with wasFirst | ⟨rfl, rfl⟩
    · rcases attached_addAppender.mp inSecond with wasSecond | ⟨rfl, rfl⟩
      · exact kept.single first second another wasFirst wasSecond
      · exact (one first wasFirst).symm
    · rcases attached_addAppender.mp inSecond with wasSecond | ⟨rfl, -⟩
      · exact one second wasSecond
      · rfl
  case free =>
    intro another formatter nowhere has
    have different : another ≠ appender := by
      rintro rfl
      exact nowhere logger (attached_addAppender.mpr (.inr ⟨rfl, rfl⟩))
    rw [appenders_addAppender, if_neg (fun both => different both.1)] at has
    apply kept.free another formatter _ has
    exact fun other attached => nowhere other (attached_addAppender.mpr (.inl attached))
  case known => exact kept.known
  case inherited =>
    intro other another attached isHeir
    rw [m_formatter_addAppender]
    rcases attached_addAppender.mp attached with already | ⟨rfl, rfl⟩
    · rw [before other another already]
      exact kept.inherited other another already isHeir
    · rw [here]
      cases has : (state.appenders another).m_formatter with
      | none => rfl
      | some formatter => exact ((kept.has one has).1 isHeir).symm
  case own =>
    intro other another attached formatter isGiven
    rcases attached_addAppender.mp attached with already | ⟨rfl, rfl⟩
    · rw [before other another already]
      exact kept.own other another already formatter isGiven
    · rw [here]
      cases has : (state.appenders another).m_formatter with
      | none =>
          rcases harmless with some | ⟨-, same⟩
          · rw [has] at some
            cases some
          · exact same formatter isGiven
      | some own =>
          rw [(kept.has one has).2 formatter isGiven]
          rfl

/-- A call that changes the formatter of a logger. -/
theorem Kept.setFormatter (kept : state.Kept)
    (harmless : ¬ state.HasHeir logger ∨ val = (state.loggers logger).m_formatter) :
    (state.setFormatter logger val).Kept := by
  have same : (state.setFormatter logger val).appenders = state.appenders := kept.appenders_eq
  constructor
  case flag =>
    rw [same]
    exact kept.flag
  case attached =>
    rw [same]
    exact fun other another attached =>
      kept.attached other another (attached_setFormatter.mp attached)
  case single =>
    intro first second another inFirst inSecond
    exact kept.single first second another (attached_setFormatter.mp inFirst)
      (attached_setFormatter.mp inSecond)
  case free =>
    rw [same]
    intro another formatter nowhere has
    apply kept.free another formatter _ has
    exact fun other attached => nowhere other (attached_setFormatter.mpr attached)
  case known => exact kept.known
  case inherited =>
    intro other another attached isHeir
    have already := attached_setFormatter.mp attached
    rw [same, m_formatter_setFormatter, kept.inherited other another already isHeir]
    split
    next isLogger =>
      subst isLogger
      rcases harmless with noHeir | unchanged
      · exact absurd ⟨another, already, isHeir⟩ noHeir
      · exact unchanged.symm
    next => rfl
  case own =>
    rw [same]
    exact fun other another attached =>
      kept.own other another (attached_setFormatter.mp attached)

/-- A call on an appender. -/
theorem Kept.setAppenderFormatter (kept : state.Kept)
    (harmless : state.Harmless (.setAppenderFormatter appender val)) :
    (state.perform (.setAppenderFormatter appender val)).Kept := by
  have here : (state.perform (.setAppenderFormatter appender val)).appenders appender =
      (state.appenders appender).setFormatter val := Function.update_self ..
  have there : ∀ another, another ≠ appender →
      (state.perform (.setAppenderFormatter appender val)).appenders another =
        state.appenders another := fun another different => Function.update_of_ne different ..
  have isCalled : (state.perform (.setAppenderFormatter appender val)).called appender = true :=
    Function.update_self ..
  have called : ∀ another, another ≠ appender →
      (state.perform (.setAppenderFormatter appender val)).called another = state.called another :=
    fun another different => Function.update_of_ne different ..
  have isGiven : ∀ formatter, val = some formatter →
      (state.perform (.setAppenderFormatter appender val)).given appender = some formatter := by
    rintro formatter rfl
    exact Function.update_self ..
  have given : ∀ another, another ≠ appender →
      (state.perform (.setAppenderFormatter appender val)).given another = state.given another := by
    intro another different
    rw [perform]
    split
    · exact Function.update_of_ne different ..
    · rfl
  have isSome : ∀ other, state.Attached other appender → ∃ formatter, val = some formatter := by
    intro other attached
    rcases harmless with some | free
    · exact Option.isSome_iff_exists.mp some
    · exact absurd attached (free other)
  constructor
  case flag =>
    intro another
    by_cases same : another = appender
    · rw [same, here]
      rfl
    · rw [there another same]
      exact kept.flag another
  case attached =>
    intro other another attached
    by_cases same : another = appender
    · subst same
      obtain ⟨formatter, rfl⟩ := isSome other attached
      rw [here]
      rfl
    · rw [there another same]
      exact kept.attached other another attached
  case single => exact kept.single
  case free =>
    intro another formatter nowhere has
    by_cases same : another = appender
    · subst same
      rw [here] at has
      exact ⟨isCalled, isGiven formatter has⟩
    · rw [there another same] at has
      rw [called another same, given another same]
      exact kept.free another formatter nowhere has
  case known =>
    intro another formatter known
    by_cases same : another = appender
    · rw [same]
      exact isCalled
    · rw [given another same] at known
      rw [called another same]
      exact kept.known another formatter known
  case inherited =>
    intro other another attached isHeir
    by_cases same : another = appender
    · rw [same, isCalled] at isHeir
      cases isHeir
    · rw [called another same] at isHeir
      rw [there another same]
      exact kept.inherited other another attached isHeir
  case own =>
    intro other another attached formatter known
    by_cases same : another = appender
    · subst same
      obtain ⟨own, rfl⟩ := isSome other attached
      rw [isGiven own rfl] at known
      rw [here]
      exact known
    · rw [given another same] at known
      rw [there another same]
      exact kept.own other another attached formatter known

/-- One call of a run. -/
theorem Kept.perform (kept : state.Kept) {call : Call LoggerId AppenderId}
    (one : state.OneLogger call) (harmless : state.Harmless call) : (state.perform call).Kept := by
  cases call with
  | addAppender logger appender => exact kept.addAppender one harmless
  | setFormatter logger val => exact kept.setFormatter harmless
  | setPattern logger pattern =>
      show (state.setPattern logger pattern).Kept
      cases valid : (LogFormatter.mk pattern).isError with
      | true =>
          rw [setPattern_of_error valid]
          exact kept
      | false =>
          rw [kept.overloads logger valid]
          apply kept.setFormatter
          apply Or.imp_right _ harmless
          rintro (error | unchanged)
          · rw [valid] at error
            cases error
          · exact unchanged
  | setAppenderFormatter appender val => exact kept.setAppenderFormatter harmless

/-- A call behind which the formatters are not the right ones is not harmless. -/
theorem Kept.harmless (kept : state.Kept) {call : Call LoggerId AppenderId}
    (inherits : (state.perform call).Inherits) : state.Harmless call := by
  -- a logger whose formatter changes has no heir
  have changed : ∀ logger val, (state.setFormatter logger val).Inherits →
      ¬ state.HasHeir logger ∨ val = (state.loggers logger).m_formatter := by
    intro logger val after
    rw [or_iff_not_imp_left, Classical.not_not]
    rintro ⟨appender, attached, isHeir⟩
    have now := after.inherited logger appender (attached_setFormatter.mpr attached) isHeir
    rw [m_formatter_setFormatter, if_pos rfl, kept.appenders_eq] at now
    exact now.symm.trans (kept.inherited logger appender attached isHeir)
  cases call with
  | addAppender logger appender =>
      have attached : (state.perform (.addAppender logger appender)).Attached logger appender :=
        attached_addAppender.mpr (.inr ⟨rfl, rfl⟩)
      cases has : (state.appenders appender).m_formatter with
      | some formatter => exact .inl (by rw [has]; rfl)
      | none =>
          have here : (state.perform (.addAppender logger appender)).appenders appender =
              (state.appenders appender).setFormatter (state.loggers logger).m_formatter := by
            rw [appenders_addAppender, if_pos ⟨rfl, has⟩]
          have flag := inherits.flag attached
          rw [here] at flag
          refine .inr ⟨flag, fun formatter isGiven => ?_⟩
          have own := inherits.own logger appender attached formatter isGiven
          rw [here] at own
          exact own
  | setFormatter logger val => exact changed logger val inherits
  | setPattern logger pattern =>
      cases valid : (LogFormatter.mk pattern).isError with
      | true => exact .inr (.inl valid)
      | false =>
          have after : (state.setFormatter logger (some ⟨pattern⟩)).Inherits := by
            rw [← kept.overloads logger valid]
            exact inherits
          exact (changed logger _ after).imp_right .inr
  | setAppenderFormatter appender val =>
      rw [Harmless, or_iff_not_imp_right]
      intro somewhere
      obtain ⟨logger, attached⟩ := Classical.not_forall.mp somewhere
      have flag := inherits.flag (show (state.perform (.setAppenderFormatter appender val)).Attached
        logger appender from Classical.not_not.mp attached)
      have here : (state.perform (.setAppenderFormatter appender val)).appenders appender =
          (state.appenders appender).setFormatter val := Function.update_self ..
      rw [here] at flag
      exact flag

end State

/-! ## Runs -/

/-- The states of the runs that keep to one logger for each appender and whose calls are all
harmless. -/
def HarmlessRuns (state : State LoggerId AppenderId) : Prop :=
  calls.Reaches (fun state call => state.OneLogger call ∧ state.Harmless call) state

theorem HarmlessRuns.kept {state : State LoggerId AppenderId} (reached : HarmlessRuns state) :
    state.Kept := by
  apply reached.invariant
  case start =>
    rintro state ⟨loggers, appenders⟩
    have nowhere : ∀ logger appender, ¬ state.Attached logger appender := by
      intro logger appender
      rw [State.Attached, (loggers logger).2]
      exact List.not_mem_nil
    constructor
    case flag =>
      intro appender
      rw [(appenders appender).1, (appenders appender).2.1]
      rfl
    case attached => exact fun logger appender attached => absurd attached (nowhere logger appender)
    case single => exact fun logger _ appender attached => absurd attached (nowhere logger appender)
    case free =>
      intro appender formatter _ has
      rw [(appenders appender).1] at has
      cases has
    case known =>
      intro appender formatter isGiven
      rw [(appenders appender).2.2.2] at isGiven
      cases isGiven
    case inherited =>
      exact fun logger appender attached => absurd attached (nowhere logger appender)
    case own => exact fun logger appender attached => absurd attached (nowhere logger appender)
  case keep =>
    rintro state call next _ kept ⟨one, harmless⟩ rfl
    exact kept.perform one harmless

/-- The formatters are the right ones as long as every call is harmless, and no longer: the
first call that is not leaves a wrong one. -/
theorem inherits_iff {state : State LoggerId AppenderId} (reached : HarmlessRuns state) :
    state.Inherits ∧ ∀ call, state.OneLogger call →
      ((state.perform call).Inherits ↔ state.Harmless call) := by
  refine ⟨reached.kept.inherits, fun call one => ?_⟩
  constructor
  · exact reached.kept.harmless
  · exact fun harmless => (reached.kept.perform one harmless).inherits

/-- A logger and an appender, both new. -/
def fresh : State Unit Unit where
  loggers _ := {}
  appenders _ := { sink := .stdout }
  called _ := false
  given _ := none

theorem inherits_iff_attached : (fresh.perform (.addAppender () ())).Inherits := by
  have start : HarmlessRuns fresh :=
    .initial ⟨fun _ => ⟨rfl, rfl⟩, fun _ => ⟨rfl, rfl, rfl, rfl⟩⟩
  have one : fresh.OneLogger (.addAppender () ()) := fun _ _ => rfl
  have harmless : fresh.Harmless (.addAppender () ()) := .inr ⟨rfl, nofun⟩
  exact (inherits_iff (.step start ⟨one, harmless⟩ rfl)).1

/-- The logger gets a new formatter and its appender keeps the one that it inherited. -/
theorem heir_left_behind :
    ¬ ((fresh.perform (.addAppender () ())).perform
      (.setFormatter () (some ⟨ascii "%m%n"⟩))).Inherits := by
  intro inherits
  have same := inherits.inherited () () (by decide) (by decide)
  exact absurd same (by decide)

end Exhy.Log
