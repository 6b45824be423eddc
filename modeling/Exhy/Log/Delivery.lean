import Exhy.Log.Core

/-!
# The delivery of events

Which appenders an event reaches through the filter of the macros, `Logger::log` and the filter
of each appender.  What an appender writes of the event is left out.
-/

namespace Exhy.Log

open Library

/-- Whether `log(logger, level, event)` of an appender writes the event. -/
def LogAppender.logs (appender : LogAppender) (level : Level) : Bool := level ≥ appender.m_level

namespace Logger

variable {AppenderId : Type} (appenders : AppenderId → LogAppender) (level : Level)

/-- `log(level, event)`, with the appenders that write the event, one after the other.  The list
has the logger that `m_root` points to, the one that its `m_root` points to, and so on. -/
def log (logger : Logger AppenderId) : List (Logger AppenderId) → List AppenderId
  | [] =>
      if logger.logs level then
        if logger.m_appenders ≠ [] then
          logger.m_appenders.filter fun id => (appenders id).logs level
        else []
      else []
  | m_root :: later =>
      if logger.logs level then
        if logger.m_appenders ≠ [] then
          logger.m_appenders.filter fun id => (appenders id).logs level
        else log m_root later
      else []

/-- `EXHY_LOG_LEVEL(logger, level)`, of which the event is logged when its wrap goes. -/
def EXHY_LOG_LEVEL (logger : Logger AppenderId) (roots : List (Logger AppenderId)) :
    List AppenderId :=
  if logger.m_level ≤ level then logger.log appenders level roots else []

/-- What an event is delivered to that passes the filter of the macros. -/
def receivers (logger : Logger AppenderId) (roots : List (Logger AppenderId)) : List AppenderId :=
  if logger.m_appenders ≠ [] then
    logger.m_appenders.filter fun id => (appenders id).m_level ≤ level
  else
    match roots with
    | [] => []
    | m_root :: later => m_root.log appenders level later

/-- An event that passes the filter of the macros reaches its receivers, and `log` has the same
filter. -/
structure Delivers (logger : Logger AppenderId) (roots : List (Logger AppenderId)) : Prop where
  delivers : logger.m_level ≤ level →
    logger.EXHY_LOG_LEVEL appenders level roots = logger.receivers appenders level roots
  threshold : logger.logs level = decide (logger.m_level ≤ level)

section Delivers

variable {appenders level} {logger : Logger AppenderId} {roots : List (Logger AppenderId)}

theorem logs_eq_true_iff : logger.logs level = true ↔ logger.m_level < level :=
  decide_eq_true_iff

/-- Above the level of the logger `log` reaches the receivers. -/
theorem log_of_lt (passes : logger.m_level < level) :
    logger.log appenders level roots = logger.receivers appenders level roots := by
  have passes := logs_eq_true_iff.mpr passes
  cases roots with
  | nil => rw [log, if_pos passes, receivers]; rfl
  | cons m_root later => rw [log, if_pos passes, receivers]; rfl

/-- The filters agree but for an event at the level of the logger. -/
theorem delivers_iff (appenders : AppenderId → LogAppender) (level : Level)
    (logger : Logger AppenderId) (roots : List (Logger AppenderId)) :
    logger.Delivers appenders level roots ↔ level ≠ logger.m_level := by
  constructor
  · rintro delivers rfl
    have threshold := delivers.threshold
    rw [decide_eq_true (UInt32.le_refl _), logs_eq_true_iff] at threshold
    exact UInt32.lt_irrefl _ threshold
  · intro different
    constructor
    · intro passes
      rw [EXHY_LOG_LEVEL, if_pos passes, log_of_lt]
      exact UInt32.lt_of_le_of_ne passes different.symm
    · rw [logs]
      apply decide_eq_decide.mpr
      constructor
      · apply UInt32.le_of_lt
      · intro passes
        exact UInt32.lt_of_le_of_ne passes different.symm

/-- A new logger with one appender loses an event at its own level. -/
theorem delivers_not :
    Logger.EXHY_LOG_LEVEL (fun _ => { sink := .stdout }) LogLevel.DEBUGs
        ({ m_appenders := [0] } : Logger Nat) [] = [] ∧
      Logger.receivers (fun _ => { sink := .stdout }) LogLevel.DEBUGs
        ({ m_appenders := [0] } : Logger Nat) [] = [0] ∧
      ¬Logger.Delivers (fun _ => { sink := .stdout }) LogLevel.DEBUGs
        ({ m_appenders := [0] } : Logger Nat) [] := by
  refine ⟨by decide, by decide, ?_⟩
  intro delivers
  exact absurd delivers.threshold (by decide)

end Delivers

end Logger

end Exhy.Log
