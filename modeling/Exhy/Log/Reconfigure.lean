import Exhy.Library.Fold
import Exhy.Log.Core
import Mathlib.Data.List.Nodup

/-!
# Reconfigured loggers

The listener that `LogIniter` registers, on the old and the new definitions.  A definition
that is in both sets leaves the pointer to its logger null, and the formatter of an appender's
definition is not used.
-/

namespace Exhy.Log

open Library

/-! ## Definitions of loggers -/

structure LogAppenderDefine where
  type : Int := 0
  level : Level := LogLevel.UNKNOW
  formatter : Bytes := []
  file : Bytes := []
  deriving DecidableEq, Repr

/-- The appender that the listener makes of the type; none where the pointer stays null. -/
def LogAppenderDefine.sink (a : LogAppenderDefine) : Option Sink :=
  if a.type = 1 then some (.file a.file) else if a.type = 2 then some .stdout else none

structure LogDefine where
  name : Bytes
  level : Level := LogLevel.UNKNOW
  formatter : Bytes := []
  appenders : List LogAppenderDefine := []
  deriving DecidableEq, Repr

/-- A set of definitions, which are compared by name, in the order of its iteration. -/
structure LogDefines where
  items : List LogDefine
  distinct : (items.map LogDefine.name).Nodup

namespace LogDefines

def find (defines : LogDefines) (i : LogDefine) : Option LogDefine :=
  defines.items.find? fun other => other.name = i.name

end LogDefines

/-! ## The manager and the listener -/

/-- The loggers by name and the appenders of the program; `next` is where the next appender is
made. -/
structure LoggerManager where
  m_loggers : Bytes → Option (Logger Nat)
  appenders : Nat → LogAppender
  next : Nat

namespace LoggerManager

/-- The logger of the name, which is made where there is none. -/
def getLogger (manager : LoggerManager) (name : Bytes) : Logger Nat :=
  (manager.m_loggers name).getD { m_name := name }

/-- What the logger of the name is now. -/
def put (manager : LoggerManager) (name : Bytes) (logger : Logger Nat) : LoggerManager :=
  { manager with m_loggers := Function.update manager.m_loggers name (some logger) }

/-- One round of the loop over the appenders of a definition. -/
def addAppender (name : Bytes) (manager : LoggerManager) (a : LogAppenderDefine) :
    Option LoggerManager :=
  a.sink.map fun sink =>
    let ap := LogAppender.setLevel { sink } a.level
    let (logger, appenders) := (manager.getLogger name).addAppender manager.next
      (Function.update manager.appenders manager.next ap)
    { manager.put name logger with appenders, next := manager.next + 1 }

/-- The logger of a definition before the appenders are added. -/
def prepare (manager : LoggerManager) (i : LogDefine) : Logger Nat :=
  let logger := (manager.getLogger i.name).setLevel i.level
  (if i.formatter ≠ [] then logger.setPattern i.formatter else logger).clearAppenders

/-- One round of the loop over the new definitions. -/
def configure (old_value : LogDefines) (manager : LoggerManager) (i : LogDefine) :
    Option LoggerManager :=
  match old_value.find i with
  | none => i.appenders.foldlM (addAppender i.name) (manager.put i.name (manager.prepare i))
  | some it =>
      if i ≠ it then
        i.appenders.foldlM (addAppender i.name) (manager.put i.name (manager.prepare i))
      else
        -- the pointer is still null, and it is dereferenced
        none

/-- One round of the loop over the old definitions. -/
def remove (new_value : LogDefines) (manager : LoggerManager) (i : LogDefine) : LoggerManager :=
  match new_value.find i with
  | none => manager.put i.name ((manager.getLogger i.name).setLevel 0xffffffff).clearAppenders
  | some _ => manager

/-- The listener; none where it dereferences a null pointer. -/
def onChange (old_value new_value : LogDefines) (manager : LoggerManager) :
    Option LoggerManager :=
  (new_value.items.foldlM (configure old_value) manager).map
    (old_value.items.foldl (remove new_value))

/-! ## What the definitions ask for -/

/-- The appender is as its definition says.  One without a formatter uses that of its logger. -/
structure Matches (manager : LoggerManager) (logger : Logger Nat) (a : LogAppenderDefine)
    (appender : Nat) : Prop where
  sink : a.sink = some (manager.appenders appender).sink
  level : (manager.appenders appender).m_level = a.level
  formatter : (manager.appenders appender).m_formatter =
    if a.formatter = [] then logger.m_formatter else some ⟨a.formatter⟩

/-- The logger of the definition is as the definition says. -/
structure Has (manager : LoggerManager) (i : LogDefine) : Prop where
  level : (manager.getLogger i.name).m_level = i.level
  formatter : i.formatter ≠ [] → (manager.getLogger i.name).m_formatter = some ⟨i.formatter⟩
  appenders : List.Forall₂ (manager.Matches (manager.getLogger i.name)) i.appenders
    (manager.getLogger i.name).m_appenders
  distinct : (manager.getLogger i.name).m_appenders.Nodup

/-- The new definitions are configured and the loggers that only the old ones name are off. -/
structure Configured (manager : LoggerManager) (old_value new_value : LogDefines) : Prop where
  named : ∀ i ∈ new_value.items, manager.Has i
  removed : ∀ i ∈ old_value.items, (∀ other ∈ new_value.items, other.name ≠ i.name) →
    (manager.getLogger i.name).m_appenders = [] ∧
      ∀ level, (manager.getLogger i.name).logs level = false

/-- No new definition is an old one, every appender has a type, a formatter is valid unless
the logger has it already, and an appender asks for no formatter but that of its logger. -/
structure Applies (manager : LoggerManager) (old_value new_value : LogDefines) : Prop where
  changed : ∀ i ∈ new_value.items, i ∉ old_value.items
  typed : ∀ i ∈ new_value.items, ∀ a ∈ i.appenders, a.type = 1 ∨ a.type = 2
  formatter : ∀ i ∈ new_value.items, i.formatter = [] ∨
    (LogFormatter.mk i.formatter).isError = false ∨
      (manager.getLogger i.name).m_formatter = some ⟨i.formatter⟩
  appenders : ∀ i ∈ new_value.items, ∀ a ∈ i.appenders, a.formatter = [] ∨
    some ⟨a.formatter⟩ =
      if i.formatter = [] then (manager.getLogger i.name).m_formatter else some ⟨i.formatter⟩

variable {manager middle result : LoggerManager} {name other : Bytes}
  {touched reached : Bytes → Prop} {i : LogDefine} {old_value new_value : LogDefines}

/-! ## What a round changes -/

theorem getLogger_put (logger : Logger Nat) :
    (manager.put name logger).getLogger other =
      if other = name then logger else manager.getLogger other := by
  simp only [getLogger, put]
  by_cases same : other = name
  · rw [if_pos same, same, Function.update_self, Option.getD_some]
  · rw [if_neg same, Function.update_of_ne same]

/-- The change is within some loggers and new appenders. -/
structure Within (touched : Bytes → Prop) (manager result : LoggerManager) : Prop where
  loggers : ∀ name, ¬ touched name → result.getLogger name = manager.getLogger name
  appenders : ∀ id, id < manager.next → result.appenders id = manager.appenders id
  next : manager.next ≤ result.next

theorem Within.refl (touched : Bytes → Prop) (manager : LoggerManager) :
    Within touched manager manager where
  loggers _ _ := rfl
  appenders _ _ := rfl
  next := le_rfl

theorem Within.trans (first : Within touched manager middle) (second : Within touched middle result) :
    Within touched manager result where
  loggers name outside := by
    rw [second.loggers name outside, first.loggers name outside]
  appenders id before := by
    rw [second.appenders id (Nat.lt_of_lt_of_le before first.next), first.appenders id before]
  next := Nat.le_trans first.next second.next

theorem Within.mono (within : Within touched manager result)
    (inside : ∀ name, touched name → reached name) : Within reached manager result where
  loggers name outside := within.loggers name fun member => outside (inside name member)
  appenders := within.appenders
  next := within.next

theorem within_put (manager : LoggerManager) (name : Bytes) (logger : Logger Nat) :
    Within (· = name) manager (manager.put name logger) where
  loggers other outside := by
    rw [getLogger_put, if_neg outside]
  appenders _ _ := rfl
  next := le_rfl

/-- The appender that is made of a definition and uses the formatter. -/
def made (val : Option LogFormatter) (a : LogAppenderDefine) : Option LogAppender :=
  a.sink.map fun sink => (LogAppender.setLevel { sink } a.level).setFormatter val

/-- The appender that is made is as its definition says where the definition asks for no other
formatter. -/
theorem matches_iff {logger : Logger Nat} {a : LogAppenderDefine} {id : Nat}
    (isMade : made logger.m_formatter a = some (manager.appenders id)) :
    manager.Matches logger a id ↔
      a.formatter = [] ∨ some ⟨a.formatter⟩ = logger.m_formatter := by
  obtain ⟨sink, isSink, appender⟩ := Option.map_eq_some_iff.mp isMade
  have formatter : (manager.appenders id).m_formatter = logger.m_formatter := by rw [← appender]; rfl
  constructor
  · intro matched
    have asked := matched.formatter
    rw [formatter] at asked
    split at asked
    next empty => exact .inl empty
    next => exact .inr asked.symm
  · intro unasked
    constructor
    case sink => rw [isSink, ← appender]; rfl
    case level => rw [← appender]; rfl
    case formatter =>
      rw [formatter]
      split
      · rfl
      next own => exact (unasked.resolve_left own).symm

/-- Appenders with the numbers from `next` on were added to the logger. -/
structure Added (name : Bytes) (appenders : List LogAppenderDefine)
    (manager result : LoggerManager) : Prop where
  within : Within (· = name) manager result
  logger : result.getLogger name = { manager.getLogger name with
    m_appenders := (manager.getLogger name).m_appenders ++
      List.range' manager.next appenders.length }
  next : result.next = manager.next + appenders.length
  made : appenders.map (made (manager.getLogger name).m_formatter) =
    (List.range' manager.next appenders.length).map fun id => some (result.appenders id)

theorem isSome_addAppender (a : LogAppenderDefine) :
    (addAppender name manager a).isSome ↔ a.type = 1 ∨ a.type = 2 := by
  rw [addAppender, Option.isSome_map, LogAppenderDefine.sink]
  split
  next file => simp [file]
  next notFile =>
    split
    next stdout => simp [stdout]
    next notStdout => simp [notFile, notStdout]

theorem addAppender_eq_some {a : LogAppenderDefine} :
    addAppender name manager a = some result ↔ ∃ ap,
      made (manager.getLogger name).m_formatter a = some ap ∧
        result = { manager.put name { manager.getLogger name with
          m_appenders := (manager.getLogger name).m_appenders ++ [manager.next] } with
            appenders := Function.update manager.appenders manager.next ap
            next := manager.next + 1 } := by
  rw [addAppender, made]
  cases a.sink with
  | none => simp
  | some sink => simp [Logger.addAppender, LogAppender.setLevel, eq_comm]

theorem added_addAppender {a : LogAppenderDefine} (done : addAppender name manager a = some result) :
    Added name [a] manager result := by
  obtain ⟨ap, isMade, rfl⟩ := addAppender_eq_some.mp done
  constructor
  case within =>
    constructor
    case loggers => exact (within_put manager name _).loggers
    case appenders => exact fun id before => Function.update_of_ne (Nat.ne_of_lt before) ..
    case next => exact Nat.le_succ _
  case logger => exact (getLogger_put _).trans (if_pos rfl)
  case next => rfl
  case made =>
    have here : Function.update manager.appenders manager.next ap manager.next = ap :=
      Function.update_self ..
    rw [List.map_singleton, isMade]
    exact congrArg (fun ap => [some ap]) here.symm

/-- The loop over the appenders of a definition. -/
theorem added_foldlM {appenders : List LogAppenderDefine}
    (done : appenders.foldlM (addAppender name) manager = some result) :
    Added name appenders manager result := by
  induction appenders generalizing manager with
  | nil =>
      cases done
      constructor
      case within => exact .refl _ _
      case logger => simp
      case next => rfl
      case made => rfl
  | cons a later ih =>
      rw [List.foldlM_cons] at done
      obtain ⟨middle, here, onward⟩ := Option.bind_eq_some_iff.mp done
      have first := added_addAppender here
      have rest := ih onward
      have formatter : (middle.getLogger name).m_formatter = (manager.getLogger name).m_formatter := by
        rw [first.logger]
      have next : middle.next = manager.next + 1 := first.next
      constructor
      case within => exact first.within.trans rest.within
      case logger =>
        rw [rest.logger, first.logger, next]
        simp [List.range'_succ]
      case next =>
        rw [rest.next, next, List.length_cons, Nat.add_assoc, Nat.add_comm 1]
      case made =>
        have isMade := first.made
        have areMade := rest.made
        have kept := rest.within.appenders manager.next (by rw [next]; exact Nat.lt_succ_self _)
        rw [formatter, next] at areMade
        rw [List.length_cons, List.range'_succ, List.map_cons, List.map_cons, areMade, kept,
          (List.cons.inj isMade).1]

/-! ## The loop over the new definitions -/

theorem find_eq_none :
    new_value.find i = none ↔ ∀ other ∈ new_value.items, other.name ≠ i.name := by
  simp [LogDefines.find]

theorem find_eq_some_self : old_value.find i = some i ↔ i ∈ old_value.items := by
  constructor
  · exact fun found => List.mem_of_find?_eq_some found
  · intro member
    cases found : old_value.find i with
    | none => exact absurd rfl (find_eq_none.mp found i member)
    | some other =>
        have same : other.name = i.name := by simpa using List.find?_some found
        have inItems : other ∈ old_value.items := List.mem_of_find?_eq_some found
        rw [List.inj_on_of_nodup_map old_value.distinct inItems member same]

/-- A round gives no result where the definition is an old one. -/
theorem configure_of_mem (member : i ∈ old_value.items) : configure old_value manager i = none := by
  rw [configure, find_eq_some_self.mpr member]
  exact if_neg (not_not.mpr rfl)

theorem configure_of_not_mem (new : i ∉ old_value.items) : configure old_value manager i =
    i.appenders.foldlM (addAppender i.name) (manager.put i.name (manager.prepare i)) := by
  rw [configure]
  split
  next => rfl
  next it found =>
    apply if_pos
    rintro rfl
    exact new (find_eq_some_self.mp found)

theorem isSome_configure : (configure old_value manager i).isSome ↔
    i ∉ old_value.items ∧ ∀ a ∈ i.appenders, a.type = 1 ∨ a.type = 2 := by
  by_cases member : i ∈ old_value.items
  · rw [configure_of_mem member]
    simp [member]
  · rw [configure_of_not_mem member, isSome_foldlM fun a _ _ => isSome_addAppender a]
    exact (and_iff_right member).symm

/-- The logger is as the listener makes it for the definition, with these appenders. -/
structure Configures (i : LogDefine) (appenders : List Nat) (manager result : LoggerManager) :
    Prop where
  logger : result.getLogger i.name = { manager.prepare i with m_appenders := appenders }
  distinct : appenders.Nodup
  before : ∀ id ∈ appenders, id < result.next
  made : i.appenders.map (made (manager.prepare i).m_formatter) =
    appenders.map fun id => some (result.appenders id)

variable {appenders : List Nat}

/-- Later changes to other loggers. -/
theorem Configures.within (configures : Configures i appenders manager middle)
    (within : Within touched middle result) (outside : ¬ touched i.name) :
    Configures i appenders manager result := by
  constructor
  case logger => rw [within.loggers _ outside, configures.logger]
  case distinct => exact configures.distinct
  case before =>
    exact fun id member => Nat.lt_of_lt_of_le (configures.before id member) within.next
  case made =>
    rw [configures.made]
    apply List.map_congr_left
    intro id member
    rw [within.appenders id (configures.before id member)]

/-- Earlier changes to other loggers. -/
theorem Configures.of_within (within : Within touched manager middle) (outside : ¬ touched i.name)
    (configures : Configures i appenders middle result) :
    Configures i appenders manager result := by
  have same : middle.prepare i = manager.prepare i := by
    rw [prepare, prepare, within.loggers _ outside]
  constructor
  case logger => rw [configures.logger, same]
  case distinct => exact configures.distinct
  case before => exact configures.before
  case made => rw [← configures.made, same]

/-- One round. -/
theorem configures_configure (done : configure old_value manager i = some result) :
    Within (· = i.name) manager result ∧ ∃ appenders, Configures i appenders manager result := by
  by_cases member : i ∈ old_value.items
  · rw [configure_of_mem member] at done
    cases done
  · rw [configure_of_not_mem member] at done
    have added := added_foldlM done
    have prepared : (manager.put i.name (manager.prepare i)).getLogger i.name = manager.prepare i :=
      (getLogger_put _).trans (if_pos rfl)
    constructor
    · exact (within_put manager i.name _).trans added.within
    · refine ⟨List.range' manager.next i.appenders.length, ?_⟩
      constructor
      case logger =>
        rw [added.logger, prepared]
        rfl
      case distinct => exact List.nodup_range'
      case before =>
        intro id member
        rw [added.next]
        exact (List.mem_range'_1.mp member).2
      case made =>
        have isMade := added.made
        rw [prepared] at isMade
        exact isMade

/-- The loop configures every logger that the definitions name, and no other. -/
theorem configures_foldlM {items : List LogDefine} (distinct : (items.map LogDefine.name).Nodup)
    (done : items.foldlM (configure old_value) manager = some result) :
    Within (· ∈ items.map LogDefine.name) manager result ∧
      ∀ i ∈ items, ∃ appenders, Configures i appenders manager result := by
  induction items generalizing manager with
  | nil =>
      cases done
      exact ⟨.refl _ _, nofun⟩
  | cons first later ih =>
      rw [List.foldlM_cons] at done
      obtain ⟨middle, here, onward⟩ := Option.bind_eq_some_iff.mp done
      rw [List.map_cons, List.nodup_cons] at distinct
      obtain ⟨within, appenders, configures⟩ := configures_configure here
      have rest := ih distinct.2 onward
      constructor
      · apply Within.trans (within.mono _) (rest.1.mono _)
        · rintro name rfl
          exact List.mem_cons_self
        · exact fun name member => List.mem_cons_of_mem _ member
      · intro i member
        rcases List.mem_cons.mp member with rfl | inLater
        · exact ⟨appenders, configures.within rest.1 distinct.1⟩
        · obtain ⟨others, configuresOther⟩ := rest.2 i inLater
          refine ⟨others, .of_within within ?_ configuresOther⟩
          intro same
          exact distinct.1 (same ▸ List.mem_map_of_mem inLater)

/-! ## The loop over the old definitions -/

/-- The loop keeps to the loggers that the new definitions do not name. -/
theorem within_foldl_remove (items : List LogDefine) :
    Within (fun name => ∀ other ∈ new_value.items, other.name ≠ name) manager
      (items.foldl (remove new_value) manager) := by
  induction items generalizing manager with
  | nil => exact .refl _ _
  | cons first later ih =>
      rw [List.foldl_cons]
      apply Within.trans _ ih
      rw [remove]
      split
      next missing =>
        apply (within_put ..).mono
        rintro name rfl
        exact find_eq_none.mp missing
      next => exact .refl _ _

/-- The logger is off. -/
structure Off (logger : Logger Nat) : Prop where
  level : logger.m_level = 0xffffffff
  appenders : logger.m_appenders = []

theorem Off.logs {logger : Logger Nat} (off : Off logger) (level : Level) :
    logger.logs level = false := by
  rw [Logger.logs, off.level, decide_eq_false_iff_not]
  exact UInt32.not_lt.mpr (UInt32.le_iff_toNat_le.mpr (Nat.le_of_lt_succ level.toNat_lt))

theorem Off.remove (off : Off (manager.getLogger name)) :
    Off ((remove new_value manager i).getLogger name) := by
  rw [LoggerManager.remove]
  split
  · rw [getLogger_put]
    split
    · exact ⟨rfl, rfl⟩
    · exact off
  · exact off

/-- The loop turns off what the new definitions do not name. -/
theorem off_foldl_remove {items : List LogDefine} (member : i ∈ items)
    (missing : ∀ other ∈ new_value.items, other.name ≠ i.name) :
    Off ((items.foldl (remove new_value) manager).getLogger i.name) := by
  have stays : ∀ (later : List LogDefine) (middle : LoggerManager), Off (middle.getLogger i.name) →
      Off ((later.foldl (LoggerManager.remove new_value) middle).getLogger i.name) := by
    intro later
    induction later with
    | nil => exact fun _ off => off
    | cons first later ih => exact fun middle off => ih _ off.remove
  induction items generalizing manager with
  | nil => cases member
  | cons first later ih =>
      rw [List.foldl_cons]
      rcases List.mem_cons.mp member with rfl | inLater
      · apply stays
        rw [LoggerManager.remove, find_eq_none.mpr missing, getLogger_put, if_pos rfl]
        exact ⟨rfl, rfl⟩
      · exact ih inLater

/-! ## The listener -/

theorem m_level_prepare : (manager.prepare i).m_level = i.level := by
  rw [prepare]
  split
  · rw [Logger.setPattern]
    split <;> rfl
  · rfl

theorem m_formatter_prepare : (manager.prepare i).m_formatter =
    if i.formatter = [] ∨ (LogFormatter.mk i.formatter).isError = true then
      (manager.getLogger i.name).m_formatter
    else some ⟨i.formatter⟩ := by
  rw [prepare]
  by_cases empty : i.formatter = []
  · have taken : i.formatter = [] ∨ (LogFormatter.mk i.formatter).isError = true := .inl empty
    rw [if_neg (not_not.mpr empty), if_pos taken]
    rfl
  · rw [if_pos empty, Logger.setPattern]
    by_cases invalid : (LogFormatter.mk i.formatter).isError = true
    · rw [if_pos invalid, if_pos (.inr invalid)]
      rfl
    · rw [if_neg invalid, if_neg (not_or.mpr ⟨empty, invalid⟩)]
      rfl

/-- The appenders are as their definitions say where none asks for another formatter. -/
theorem forall₂_matches_iff {logger : Logger Nat} {defines : List LogAppenderDefine}
    (areMade : defines.map (made logger.m_formatter) =
      appenders.map fun id => some (manager.appenders id)) :
    List.Forall₂ (manager.Matches logger) defines appenders ↔
      ∀ a ∈ defines, a.formatter = [] ∨ some ⟨a.formatter⟩ = logger.m_formatter := by
  induction defines generalizing appenders with
  | nil =>
      cases appenders with
      | nil => simp
      | cons id ids => cases areMade
  | cons a later ih =>
      cases appenders with
      | nil => cases areMade
      | cons id ids =>
          rw [List.map_cons, List.map_cons, List.cons.injEq] at areMade
          rw [List.forall₂_cons, List.forall_mem_cons, matches_iff areMade.1, ih areMade.2]

/-- What the definition must ask for, that the listener does what it asks for. -/
theorem Configures.has_iff (configures : Configures i appenders manager result) :
    result.Has i ↔
      (i.formatter = [] ∨ (LogFormatter.mk i.formatter).isError = false ∨
        (manager.getLogger i.name).m_formatter = some ⟨i.formatter⟩) ∧
      ∀ a ∈ i.appenders, a.formatter = [] ∨ some ⟨a.formatter⟩ =
        if i.formatter = [] then (manager.getLogger i.name).m_formatter
        else some ⟨i.formatter⟩ := by
  have formatter : (result.getLogger i.name).m_formatter = (manager.prepare i).m_formatter := by
    rw [configures.logger]
  have ids : (result.getLogger i.name).m_appenders = appenders := by rw [configures.logger]
  have level : (result.getLogger i.name).m_level = i.level := by
    rw [configures.logger]
    exact m_level_prepare
  -- the formatter is the definition's just where it is valid or was there before
  have set : (i.formatter ≠ [] → (manager.prepare i).m_formatter = some ⟨i.formatter⟩) ↔
      (i.formatter = [] ∨ (LogFormatter.mk i.formatter).isError = false ∨
        (manager.getLogger i.name).m_formatter = some ⟨i.formatter⟩) := by
    rw [m_formatter_prepare]
    by_cases empty : i.formatter = []
    · simp [empty]
    · by_cases invalid : (LogFormatter.mk i.formatter).isError = true
      · simp [empty, invalid]
      · simp [empty, invalid]
  have isMade := configures.made
  rw [← formatter] at isMade
  have matched := forall₂_matches_iff isMade
  have chosen : (i.formatter ≠ [] → (manager.prepare i).m_formatter = some ⟨i.formatter⟩) →
      (manager.prepare i).m_formatter =
        if i.formatter = [] then (manager.getLogger i.name).m_formatter
        else some ⟨i.formatter⟩ := by
    intro own
    by_cases empty : i.formatter = []
    · rw [m_formatter_prepare, if_pos (.inl empty), if_pos empty]
    · rw [if_neg empty, own empty]
  rw [formatter] at matched
  constructor
  · intro has
    have own := has.formatter
    have all := has.appenders
    rw [formatter] at own
    rw [ids] at all
    refine ⟨set.mp own, ?_⟩
    rw [← chosen own]
    exact matched.mp all
  · rintro ⟨valid, unasked⟩
    have own := set.mpr valid
    rw [← chosen own] at unasked
    constructor
    case level => exact level
    case formatter =>
      rw [formatter]
      exact own
    case appenders =>
      rw [ids]
      exact matched.mpr unasked
    case distinct =>
      rw [ids]
      exact configures.distinct

/-- The listener gives a result where every definition is new and every appender has a type. -/
theorem isSome_onChange : (onChange old_value new_value manager).isSome ↔
    ∀ i ∈ new_value.items, i ∉ old_value.items ∧ ∀ a ∈ i.appenders, a.type = 1 ∨ a.type = 2 := by
  rw [onChange, Option.isSome_map]
  apply isSome_foldlM
  exact fun _ _ _ => isSome_configure

/-- Each new definition is configured in the result. -/
theorem configures_onChange (done : onChange old_value new_value manager = some result)
    (member : i ∈ new_value.items) : ∃ appenders, Configures i appenders manager result := by
  obtain ⟨middle, configured, rfl⟩ := Option.map_eq_some_iff.mp done
  have all := configures_foldlM new_value.distinct configured
  obtain ⟨appenders, configures⟩ := all.2 i member
  refine ⟨appenders, configures.within (within_foldl_remove old_value.items) ?_⟩
  intro missing
  exact missing i member rfl

/-- The listener configures the new definitions and turns the others off just where it
applies. -/
theorem onChange_iff (old_value new_value : LogDefines) (manager : LoggerManager) :
    (∃ result, onChange old_value new_value manager = some result ∧
      result.Configured old_value new_value) ↔ manager.Applies old_value new_value := by
  constructor
  · rintro ⟨result, done, configured⟩
    have gives := isSome_onChange.mp (Option.isSome_of_eq_some done)
    have asks : ∀ i ∈ new_value.items, _ := fun i member =>
      (configures_onChange done member).choose_spec.has_iff.mp (configured.named i member)
    constructor
    case changed => exact fun i member => (gives i member).1
    case typed => exact fun i member => (gives i member).2
    case formatter => exact fun i member => (asks i member).1
    case appenders => exact fun i member => (asks i member).2
  · intro applies
    have gives : (onChange old_value new_value manager).isSome := isSome_onChange.mpr
      fun i member => ⟨applies.changed i member, applies.typed i member⟩
    obtain ⟨result, done⟩ := Option.isSome_iff_exists.mp gives
    refine ⟨result, done, ?_⟩
    constructor
    case named =>
      intro i member
      obtain ⟨appenders, configures⟩ := configures_onChange done member
      exact configures.has_iff.mpr ⟨applies.formatter i member, applies.appenders i member⟩
    case removed =>
      intro i member missing
      obtain ⟨middle, -, rfl⟩ := Option.map_eq_some_iff.mp done
      have off : Off ((old_value.items.foldl (remove new_value) middle).getLogger i.name) :=
        off_foldl_remove member missing
      exact ⟨off.appenders, off.logs⟩

end LoggerManager

/-- A program that has configured no logger. -/
def unconfigured : LoggerManager where
  m_loggers _ := none
  appenders _ := { sink := .stdout }
  next := 0

/-- The definition of a logger, and the same one beside that of another. -/
def system : LogDefines where
  items := [{ name := ascii "system" }]
  distinct := by decide

def systemAndHttp : LogDefines where
  items := [{ name := ascii "http" }, { name := ascii "system" }]
  distinct := by decide

/-- The logger `system` is configured, `http` is added, and the listener dereferences the null
pointer of `system`. -/
theorem unchanged_is_null : ¬ ∀ (old_value new_value : LogDefines) (manager : LoggerManager),
    (∀ i ∈ old_value.items, manager.Has i) → old_value ≠ new_value →
      ∃ result, LoggerManager.onChange old_value new_value manager = some result ∧
        result.Configured old_value new_value := by
  intro claimed
  have different : system ≠ systemAndHttp := by
    intro same
    exact absurd (congrArg LogDefines.items same) (by decide)
  have configured : ∀ i ∈ system.items,
      (unconfigured.put (ascii "system") { m_level := LogLevel.UNKNOW }).Has i := by
    intro i member
    cases List.mem_singleton.mp member
    constructor
    case level => rfl
    case formatter => exact fun named => absurd rfl named
    case appenders => exact .nil
    case distinct => exact .nil
  obtain ⟨result, done, -⟩ := claimed _ _ _ configured different
  cases done

end Exhy.Log
