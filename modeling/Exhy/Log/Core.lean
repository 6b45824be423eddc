import Exhy.Library.CString
import Mathlib.Logic.Function.Basic

/-!
# Loggers

The formatters, appenders and loggers of `exhy_log.h` and `exhy_log.cpp`.  A pointer to an
appender is an identifier, since its owner keeps it and changes it behind the logger; a
formatter is never changed and is its pattern.  The locks are left out, and so is what the
formatters print.
-/

namespace Exhy.Log

open Library

/-! ## Formatters -/

/-- The underlying type of the enumeration. -/
abbrev Level := UInt32

namespace LogLevel

def UNKNOW : Level := 0
def DEBUGs : Level := 1
def INFO : Level := 2
def WARN : Level := 3
def ERROR : Level := 4
def FATAL : Level := 5

/-- The levels that `ST` and `SF` name. -/
def named : List (Level × Bytes) :=
  [(DEBUGs, ascii "DEBUGs"), (INFO, ascii "INFO"), (WARN, ascii "WARN"), (ERROR, ascii "ERROR"),
    (FATAL, ascii "FATAL")]

/-- `ToString(level)` -/
def toString (level : Level) : Bytes :=
  ((named.find? fun entry => entry.1 = level).map Prod.snd).getD (ascii "UNKNOW")

/-- `FromString(str)` -/
def fromString (str : Bytes) : Level :=
  ((named.find? fun entry => entry.2 = str).map Prod.fst).getD UNKNOW

/-- A level that has a name. -/
def IsNamed (level : Level) : Prop := level = UNKNOW ∨ level ∈ named.map Prod.fst

theorem fromString_toString {level : Level} (isNamed : IsNamed level) :
    fromString (toString level) = level := by
  have each : ∀ level ∈ UNKNOW :: named.map Prod.fst, fromString (toString level) = level := by
    decide
  exact each level (List.mem_cons.mpr isNamed)

end LogLevel

structure LogFormatter where
  m_pattern : Bytes
  deriving DecidableEq, Repr

namespace LogFormatter

def isAlpha (byte : UInt8) : Bool := (0x41 ≤ byte && byte ≤ 0x5A) || (0x61 ≤ byte && byte ≤ 0x7A)

/-- The names in `s_format_items`. -/
def s_format_items : List Bytes := (ascii "mprctndflTFN").map fun name => [name]

/-- The format `{..}` behind the name of an item, and what is behind it; none when it is not
closed. -/
def readFormat (fmt : Bytes) : Bytes → Option (Bytes × Bytes)
  | [] => none
  | byte :: later => if byte = 0x7D then some (fmt, later) else readFormat (fmt ++ [byte]) later

/-- The name and the format of an item, and what is behind it. -/
def readItem (str : Bytes) : Bytes → Option (Bytes × Bytes × Bytes)
  | [] => some (str, [], [])
  | byte :: later =>
      if !isAlpha byte && byte ≠ 0x7B && byte ≠ 0x7D then some (str, [], byte :: later)
      else if byte = 0x7B then (readFormat [] later).map fun (fmt, rest) => (str, fmt, rest)
      else readItem (str ++ [byte]) later

/-- A text, an item with its name and its format, or the mark of a format that is not closed. -/
inductive Part where
  | text (str : Bytes)
  | item (str fmt : Bytes)
  | unclosed
  deriving DecidableEq, Repr

/-- The text so far, unless there is none. -/
def flush (nstr : Bytes) : List Part := if nstr = [] then [] else [.text nstr]

/-- The parts of a pattern, as the loop of `init` finds them; `nstr` is the text so far. -/
def parts : (fuel : Nat) → (nstr : Bytes) → Bytes → List Part
  | 0, nstr, _ | _, nstr, [] => flush nstr
  | fuel + 1, nstr, byte :: later =>
      if byte ≠ 0x25 then parts fuel (nstr ++ [byte]) later
      else if later.head? = some 0x25 then parts fuel (nstr ++ [0x25]) later
      else
        match readItem [] later with
        | some (str, fmt, rest) => flush nstr ++ .item str fmt :: parts fuel [] rest
        | none => .unclosed :: parts fuel nstr later

/-- What sets `m_error`. -/
def Part.isError : Part → Bool
  | .text _ => false
  | .item str _ => !s_format_items.contains str
  | .unclosed => true

def isError (formatter : LogFormatter) : Bool :=
  (parts formatter.m_pattern.length [] formatter.m_pattern).any Part.isError

end LogFormatter

/-! ## Appenders -/

/-- Where an appender writes. -/
inductive Sink where
  | stdout
  | file (m_filename : Bytes)
  deriving DecidableEq, Repr

structure LogAppender where
  sink : Sink
  m_level : Level := LogLevel.DEBUGs
  m_hasFormatter : Bool := false
  m_formatter : Option LogFormatter := none
  deriving DecidableEq, Repr

namespace LogAppender

def setFormatter (appender : LogAppender) (val : Option LogFormatter) : LogAppender :=
  { appender with m_formatter := val, m_hasFormatter := val.isSome }

def setLevel (appender : LogAppender) (val : Level) : LogAppender := { appender with m_level := val }

end LogAppender

/-! ## Loggers -/

/-- The pattern of a new logger. -/
def defaultPattern : Bytes := ascii "%d\x7b%Y-%m-%d%H:%M:%S\x7d%T%t%T%N%T%F%T[%p]%T[%c]%T%f:%l%T%m%n"

structure Logger (AppenderId : Type) where
  m_name : Bytes := ascii "root"
  m_level : Level := LogLevel.DEBUGs
  m_formatter : Option LogFormatter := some ⟨defaultPattern⟩
  m_appenders : List AppenderId := []
  deriving DecidableEq, Repr

namespace Logger

variable {AppenderId : Type} [DecidableEq AppenderId]

/-- `addAppender(appender)`, with the appenders that it leaves. -/
def addAppender (logger : Logger AppenderId) (appender : AppenderId)
    (appenders : AppenderId → LogAppender) : Logger AppenderId × (AppenderId → LogAppender) :=
  ({ logger with m_appenders := logger.m_appenders ++ [appender] },
    if (appenders appender).m_formatter.isNone then
      Function.update appenders appender ((appenders appender).setFormatter logger.m_formatter)
    else appenders)

def clearAppenders (logger : Logger AppenderId) : Logger AppenderId :=
  { logger with m_appenders := [] }

def setLevel (logger : Logger AppenderId) (val : Level) : Logger AppenderId :=
  { logger with m_level := val }

/-- What the loop of `setFormatter` does to one appender. -/
def inherit (val : Option LogFormatter) (appenders : AppenderId → LogAppender)
    (i : AppenderId) : AppenderId → LogAppender :=
  if !(appenders i).m_hasFormatter then
    Function.update appenders i { appenders i with m_formatter := val }
  else appenders

/-- `setFormatter(val)` of a pointer. -/
def setFormatter (logger : Logger AppenderId) (val : Option LogFormatter)
    (appenders : AppenderId → LogAppender) : Logger AppenderId × (AppenderId → LogAppender) :=
  ({ logger with m_formatter := val }, logger.m_appenders.foldl (inherit val) appenders)

/-- `setFormatter(val)` of a pattern. -/
def setPattern (logger : Logger AppenderId) (val : Bytes) : Logger AppenderId :=
  if (LogFormatter.mk val).isError then logger else { logger with m_formatter := some ⟨val⟩ }

/-- Whether `log(level, event)` hands the event to the appenders or to the root logger. -/
def logs (logger : Logger AppenderId) (level : Level) : Bool := level > logger.m_level

/-- The loop reaches the appenders without a formatter of their own. -/
theorem foldl_inherit (val : Option LogFormatter) (ids : List AppenderId)
    (appenders : AppenderId → LogAppender) (id : AppenderId) :
    ids.foldl (inherit val) appenders id =
      if id ∈ ids ∧ (appenders id).m_hasFormatter = false then
        { appenders id with m_formatter := val }
      else appenders id := by
  induction ids generalizing appenders with
  | nil => simp
  | cons first later ih =>
      rw [List.foldl_cons, ih]
      have kept : (inherit val appenders first id).m_hasFormatter = (appenders id).m_hasFormatter := by
        rw [inherit]
        split
        · by_cases same : id = first
          · rw [same, Function.update_self]
          · rw [Function.update_of_ne same]
        · rfl
      rw [kept]
      by_cases same : id = first
      · subst same
        by_cases own : (appenders id).m_hasFormatter = false
        · simp [inherit, own]
        · simp [inherit, own]
      · have there : inherit val appenders first id = appenders id := by
          rw [inherit]
          split
          · rw [Function.update_of_ne same]
          · rfl
        rw [there]
        simp [same]

end Logger

example : (LogFormatter.mk (ascii "%d\x7b%H:%M\x7d [%p]%n")).isError = false := by decide +kernel

example : (LogFormatter.mk (ascii "%d\x7b%H:%M")).isError = true := by decide +kernel

end Exhy.Log
