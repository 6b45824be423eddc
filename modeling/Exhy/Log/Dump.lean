import Exhy.Config.Containers
import Exhy.Log.Define

/-!
# Dumped loggers

The text that `LoggerManager::toYamlString` writes of all loggers, and what a program has that
starts with this text as its definitions.  The reader knows no type `StdoutAppender`, which the
appenders to the console write.
-/

namespace Exhy.Log

open Library Config

/-! ## The texts -/

/-- The pattern that is written of a formatter; a missing one is read as an empty text. -/
def pattern (formatter : Option LogFormatter) : Bytes :=
  (formatter.map LogFormatter.m_pattern).getD []

namespace LogAppender

/-- The fields that an appender writes, of which one that writes to the console has no file. -/
def fields (appender : LogAppender) (type : Bytes) (file : Option Bytes) :
    List (Bytes × Option Node) :=
  [(ascii "type", some (.scalar type)),
    (ascii "file", file.map .scalar),
    (ascii "level",
      Node.scalarIf (appender.m_level ≠ LogLevel.UNKNOW) (LogLevel.toString appender.m_level)),
    (ascii "formatter", (appender.m_formatter.map LogFormatter.m_pattern).map .scalar)]

/-- The node of `StdoutLogAppender::toYamlString` or of `FileLogAppender::toYamlString`. -/
def node (appender : LogAppender) : Node :=
  match appender.sink with
  | .stdout => Node.ofFields (appender.fields (ascii "StdoutAppender") none)
  | .file m_filename => Node.ofFields (appender.fields (ascii "FileLogAppender") (some m_filename))

def toYamlString (yaml : Yaml) (appender : LogAppender) : Bytes := yaml.emit appender.node

end LogAppender

namespace Logger

variable {AppenderId : Type}

/-- The fields that a logger writes, with the nodes of its appenders. -/
def fields (logger : Logger AppenderId) (nodes : List Node) : List (Bytes × Option Node) :=
  [(ascii "name", some (.scalar logger.m_name)),
    (ascii "level", some (.scalar (LogLevel.toString logger.m_level))),
    (ascii "formatter", (logger.m_formatter.map LogFormatter.m_pattern).map .scalar),
    (ascii "appenders", if nodes = [] then none else some (.sequence nodes))]

/-- The text, unless the library does not load that of an appender. -/
def toYamlString (yaml : Yaml) (logger : Logger AppenderId) (appenders : AppenderId → LogAppender) :
    Except Thrown Bytes := do
  let nodes ← logger.m_appenders.mapM fun i => yaml.load ((appenders i).toYamlString yaml)
  return yaml.emit (Node.ofFields (logger.fields nodes))

end Logger

namespace LoggerManager

/-- The loggers in the order of the iteration over `m_loggers`. -/
structure Listing (manager : LoggerManager) where
  items : List (Logger Nat)
  ascending : (items.map Logger.m_name).Pairwise (· < ·)
  complete : ∀ name logger,
    manager.m_loggers name = some logger ↔ logger ∈ items ∧ logger.m_name = name

variable {manager : LoggerManager}

/-- The text, unless the library does not load that of a logger.  A new node prints nothing
before a logger is pushed. -/
def toYamlString (yaml : Yaml) (loggers : manager.Listing) : Except Thrown Bytes := do
  let nodes ← loggers.items.mapM fun i => do yaml.load (← i.toYamlString yaml manager.appenders)
  return if nodes = [] then [] else yaml.emit (.sequence nodes)

end LoggerManager

/-! ## The variable of the definitions -/

/-- The casts between a definition and its text, and its `==`. -/
def LogDefine.cast (yaml : Yaml) : LexicalCast LogDefine where
  ofText v := (LogDefine.ofText yaml v).toOption
  toText i := some (i.toText yaml)
  equal left right := left = right

namespace LogDefines

/-- The order of a set of definitions. -/
def less (left right : LogDefine) : Bool := left.name < right.name

theorem less_transitive (left middle right : LogDefine) :
    less left middle → less middle right → less left right := by
  rw [less, less, less, decide_eq_true_eq, decide_eq_true_eq, decide_eq_true_eq]
  exact List.lt_trans

theorem less_strict (left right : LogDefine) : less left right → ¬less right left := by
  rw [less, less, decide_eq_true_eq, decide_eq_true_eq]
  exact List.lt_asymm

/-- Definitions in their order have different names. -/
theorem distinct_of_ascending {items : List LogDefine}
    (ascending : items.Pairwise fun left right => less left right) :
    (items.map LogDefine.name).Nodup := by
  rw [List.Nodup, List.pairwise_map]
  apply ascending.imp
  intro left right before same
  rw [less, decide_eq_true_eq, same] at before
  exact List.lt_irrefl _ before

theorem ascending_foldl {items later : List LogDefine}
    (ascending : items.Pairwise fun left right => less left right) :
    (later.foldl (fun st i => insertOrdered less i st) items).Pairwise
      fun left right => less left right := by
  induction later generalizing items with
  | nil => exact ascending
  | cons i later ih => exact ih (pairwise_insertOrdered less_transitive ascending)

/-- The set of the definitions that are inserted. -/
def ofItems (items : List LogDefine) : LogDefines where
  items := items.foldl (fun st i => insertOrdered less i st) []
  distinct := distinct_of_ascending (ascending_foldl List.Pairwise.nil)

/-- The value of the variable `logs` before a configuration is loaded. -/
def empty : LogDefines where
  items := []
  distinct := List.nodup_nil

/-- `LexicalCast<std::string, std::set<LogDefine> >` -/
def ofText (yaml : Yaml) (v : Bytes) : Option LogDefines :=
  ((LogDefine.cast yaml).readSequence yaml v).map ofItems

/-- The set is that of the cast of a container. -/
theorem map_items_ofText (yaml : Yaml) (v : Bytes) :
    (ofText yaml v).map items = ((LogDefine.cast yaml).set yaml less).ofText v := by
  rw [ofText, Option.map_map]
  rfl

end LogDefines

/-- The program after the variable `logs` got the text as its first value.  No listener is called
for an empty set, which is the value before and for which the listener would do nothing. -/
def LoggerManager.loadLogs (yaml : Yaml) (v : Bytes) (start : LoggerManager) :
    Option LoggerManager := do
  let new_value ← LogDefines.ofText yaml v
  start.onChange .empty new_value

/-! ## What is read -/

namespace LogLevel

/-- The level that is read of the text of a level, which one without a name does not keep. -/
def kept (level : Level) : Level := if level ∈ named.map Prod.fst then level else UNKNOW

theorem fromString_toString_eq (level : Level) : fromString (toString level) = kept level := by
  rw [kept]
  by_cases isNamed : level ∈ named.map Prod.fst
  · rw [if_pos isNamed]
    exact fromString_toString (.inr isNamed)
  · have missing : (named.find? fun entry => entry.1 = level) = none := by
      rw [List.find?_eq_none]
      intro entry member same
      exact isNamed (List.mem_map.mpr ⟨entry, member, of_decide_eq_true same⟩)
    rw [if_neg isNamed, toString, missing]
    decide

theorem kept_kept (level : Level) : kept (kept level) = kept level := by
  by_cases isNamed : level ∈ named.map Prod.fst
  · rw [kept, kept, if_pos isNamed, if_pos isNamed]
  · rw [kept, kept, if_neg isNamed]
    decide

end LogLevel

namespace LogAppender

/-- The definition that is read of an appender, if there is one. -/
def define (appender : LogAppender) : Option LogAppenderDefine :=
  match appender.sink with
  | .stdout => none
  | .file m_filename =>
      some { type := 1, file := m_filename, formatter := pattern appender.m_formatter }

theorem distinct_fields (appender : LogAppender) (type : Bytes) (file : Option Bytes) :
    ((appender.fields type file).map Prod.fst).Nodup := by
  have names : (appender.fields type file).map Prod.fst =
      [ascii "type", ascii "file", ascii "level", ascii "formatter"] := rfl
  rw [names]
  decide

section Fields

variable (yaml : Yaml) (appender : LogAppender) (type : Bytes) (file : Option Bytes)

theorem field_type :
    (Node.ofFields (appender.fields type file)).field yaml (ascii "type") = .ok (some type) := by
  apply Node.field_ofFields_map yaml (distinct_fields ..)
  simp [fields]

theorem field_file :
    (Node.ofFields (appender.fields type file)).field yaml (ascii "file") = .ok file := by
  apply Node.field_ofFields_map yaml (distinct_fields ..)
  simp [fields]

theorem field_formatter :
    (Node.ofFields (appender.fields type file)).field yaml (ascii "formatter") =
      .ok (appender.m_formatter.map LogFormatter.m_pattern) := by
  apply Node.field_ofFields_map yaml (distinct_fields ..)
  simp [fields]

/-- An appender is read as its definition. -/
theorem ofNode_node : LogAppenderDefine.ofNode yaml appender.node = .ok appender.define := by
  rw [node, define]
  cases appender.sink with
  | stdout =>
      have unlike : ascii "StdoutAppender" ≠ ascii "FileLogAppender" ∧
          ascii "StdoutAppender" ≠ ascii "StdoutLogAppender" := by decide
      rw [LogAppenderDefine.ofNode, field_type]
      simp only [bind, Except.bind, pure, Except.pure, if_neg unlike.1, if_neg unlike.2]
  | file m_filename =>
      rw [LogAppenderDefine.ofNode, field_type, field_file, field_formatter]
      simp only [bind, Except.bind, pure, Except.pure, if_pos]
      rfl

end Fields

end LogAppender

namespace Logger

variable {AppenderId : Type}

/-- The definition that is read of a logger. -/
def define (logger : Logger AppenderId) (appenders : AppenderId → LogAppender) : LogDefine where
  name := logger.m_name
  level := LogLevel.kept logger.m_level
  formatter := pattern logger.m_formatter
  appenders := logger.m_appenders.filterMap fun i => (appenders i).define

/-- The node that a logger is printed of. -/
def node (logger : Logger AppenderId) (appenders : AppenderId → LogAppender) : Node :=
  Node.ofFields (logger.fields (logger.m_appenders.map fun i => (appenders i).node))

theorem distinct_fields (logger : Logger AppenderId) (nodes : List Node) :
    ((logger.fields nodes).map Prod.fst).Nodup := by
  have names : (logger.fields nodes).map Prod.fst =
      [ascii "name", ascii "level", ascii "formatter", ascii "appenders"] := rfl
  rw [names]
  decide

section Fields

variable (yaml : Yaml) (logger : Logger AppenderId) (nodes : List Node)

theorem field_name :
    (Node.ofFields (logger.fields nodes)).field yaml (ascii "name") = .ok (some logger.m_name) := by
  apply Node.field_ofFields_map yaml (distinct_fields ..)
  simp [fields]

theorem field_level :
    (Node.ofFields (logger.fields nodes)).field yaml (ascii "level") =
      .ok (some (LogLevel.toString logger.m_level)) := by
  apply Node.field_ofFields_map yaml (distinct_fields ..)
  simp [fields]

theorem field_formatter :
    (Node.ofFields (logger.fields nodes)).field yaml (ascii "formatter") =
      .ok (logger.m_formatter.map LogFormatter.m_pattern) := by
  apply Node.field_ofFields_map yaml (distinct_fields ..)
  simp [fields]

theorem subscript_appenders :
    (Node.ofFields (logger.fields nodes)).subscript (ascii "appenders") =
      .ok (if nodes = [] then none else some (.sequence nodes)) := by
  apply Node.subscript_ofFields (distinct_fields ..)
  simp [fields]

theorem ofNodes_map (appenders : AppenderId → LogAppender) (ids : List AppenderId) :
    LogAppenderDefine.ofNodes yaml (ids.map fun i => (appenders i).node) =
      .ok (ids.filterMap fun i => (appenders i).define) := by
  induction ids with
  | nil => rfl
  | cons i later ih =>
      rw [List.map_cons, LogAppenderDefine.ofNodes, LogAppender.ofNode_node, ih]
      cases isRead : (appenders i).define with
      | none => simp [isRead, bind, Except.bind, pure, Except.pure]
      | some a => simp [isRead, bind, Except.bind, pure, Except.pure]

/-- A logger is read as its definition. -/
theorem ofNode_node (appenders : AppenderId → LogAppender) :
    LogDefine.ofNode yaml (logger.node appenders) = .ok (logger.define appenders) := by
  rw [node, LogDefine.ofNode, field_name, field_level, field_formatter, subscript_appenders]
  have level := LogLevel.fromString_toString_eq logger.m_level
  have isRead := ofNodes_map yaml appenders logger.m_appenders
  by_cases nothing : logger.m_appenders = []
  · rw [if_pos (List.map_eq_nil_iff.mpr nothing)]
    simp only [bind, Except.bind, pure, Except.pure, Option.getD_some, level]
    rw [define, nothing]
    rfl
  · rw [if_neg fun empty => nothing (List.map_eq_nil_iff.mp empty)]
    simp only [bind, Except.bind, pure, Except.pure, Option.getD_some, level, Node.elements, isRead]
    rfl

end Fields

end Logger

/-! ## The dump -/

namespace LoggerManager

variable {yaml : Yaml} {manager start middle result : LoggerManager}

/-- The definitions that are read of the loggers. -/
def Listing.defines (loggers : manager.Listing) : LogDefines where
  items := loggers.items.map fun i => i.define manager.appenders
  distinct := by
    have names : (loggers.items.map fun i => i.define manager.appenders).map LogDefine.name =
        loggers.items.map Logger.m_name := List.map_map
    rw [names]
    apply loggers.ascending.imp
    rintro left right before rfl
    exact List.lt_irrefl _ before

/-- The library loads what it prints for a dump as it was, and an empty text as a null. -/
structure Dumpable (yaml : Yaml) (loggers : manager.Listing) : Prop where
  fresh : yaml.load [] = .ok .null
  appenders : ∀ logger ∈ loggers.items, ∀ id ∈ logger.m_appenders,
    yaml.Inverts (manager.appenders id).node
  each : ∀ logger ∈ loggers.items, yaml.Inverts (logger.node manager.appenders)
  dump : yaml.Inverts (.sequence (loggers.items.map fun i => i.node manager.appenders))

section Dump

variable {loggers : manager.Listing}

theorem toYamlString_logger (dumpable : Dumpable yaml loggers) {logger : Logger Nat}
    (member : logger ∈ loggers.items) :
    logger.toYamlString yaml manager.appenders = .ok (yaml.emit (logger.node manager.appenders)) := by
  have loaded : (logger.m_appenders.mapM fun i =>
      yaml.load ((manager.appenders i).toYamlString yaml)) =
        .ok (logger.m_appenders.map fun i => (manager.appenders i).node) := by
    apply mapM_eq_pure
    exact fun id isAppender => dumpable.appenders logger member id isAppender
  rw [Logger.toYamlString, loaded]
  rfl

theorem toYamlString_eq (dumpable : Dumpable yaml loggers) :
    toYamlString yaml loggers = .ok (if loggers.items = [] then [] else
      yaml.emit (.sequence (loggers.items.map fun i => i.node manager.appenders))) := by
  have loaded : (loggers.items.mapM fun i => do
      yaml.load (← i.toYamlString yaml manager.appenders)) =
        .ok (loggers.items.map fun i => i.node manager.appenders) := by
    apply mapM_eq_pure
    intro logger member
    rw [toYamlString_logger dumpable member]
    exact dumpable.each logger member
  rw [toYamlString, loaded]
  by_cases nothing : loggers.items = []
  · rw [if_pos nothing, nothing]
    rfl
  · have pushed : (loggers.items.map fun i => i.node manager.appenders) ≠ [] :=
      fun empty => nothing (List.map_eq_nil_iff.mp empty)
    simp only [bind, Except.bind, pure, Except.pure, if_neg pushed, if_neg nothing]

/-- The casts read the definition of each logger. -/
theorem mapM_ofText (dumpable : Dumpable yaml loggers) :
    ((loggers.items.map fun i => i.node manager.appenders).map yaml.emit).mapM
        (LogDefine.cast yaml).ofText = some loggers.defines.items := by
  have read : loggers.items.mapM (fun i =>
      (LogDefine.cast yaml).ofText (yaml.emit (i.node manager.appenders))) =
        some (loggers.items.map fun i => i.define manager.appenders) := by
    apply mapM_eq_pure
    intro logger member
    have loaded := dumpable.each logger member
    have isRead := Logger.ofNode_node yaml logger manager.appenders
    simp only [LogDefine.cast, LogDefine.ofText]
    rw [loaded]
    simp [bind, Except.bind, isRead, Except.toOption]
  rw [List.map_map, List.mapM_map]
  exact read

/-- The definitions are in the order of the set. -/
theorem ofItems_defines (loggers : manager.Listing) :
    LogDefines.ofItems loggers.defines.items = loggers.defines := by
  have ascending : loggers.defines.items.Pairwise fun left right => LogDefines.less left right := by
    have names := loggers.ascending
    rw [List.pairwise_map] at names
    rw [Listing.defines, List.pairwise_map]
    apply names.imp
    exact fun before => decide_eq_true before
  have same := @foldl_insertOrdered _ LogDefines.less [] loggers.defines.items
    LogDefines.less_strict ascending
  rw [LogDefines.ofItems]
  congr

/-- A dump is read as the definitions of its loggers. -/
theorem ofText_toYamlString (dumpable : Dumpable yaml loggers) :
    ∃ text, toYamlString yaml loggers = .ok text ∧
      LogDefines.ofText yaml text = some loggers.defines := by
  refine ⟨_, toYamlString_eq dumpable, ?_⟩
  have read := mapM_ofText dumpable
  by_cases nothing : loggers.items = []
  · have undefined : loggers.defines.items = [] := List.map_eq_nil_iff.mpr nothing
    rw [if_pos nothing, LogDefines.ofText,
      LexicalCast.readSequence_of_load dumpable.fresh, ← ofItems_defines, undefined]
    rfl
  · rw [if_neg nothing, LogDefines.ofText, LexicalCast.readSequence_of_load dumpable.dump,
      Node.texts, read, Option.map_some, ofItems_defines]

end Dump

/-! ## What is registered -/

theorem isSome_put {logger : Logger Nat} {name other : Bytes}
    (registered : (manager.m_loggers other).isSome) :
    ((manager.put name logger).m_loggers other).isSome := by
  by_cases same : other = name
  · simp [put, same]
  · simpa [put, Function.update_of_ne same] using registered

theorem isSome_addAppender_loggers {name other : Bytes} {a : LogAppenderDefine}
    (done : addAppender name manager a = some result)
    (registered : (manager.m_loggers other).isSome) : (result.m_loggers other).isSome := by
  obtain ⟨ap, -, rfl⟩ := addAppender_eq_some.mp done
  exact isSome_put registered

/-- A round registers the logger of its definition, and forgets none. -/
theorem isSome_configure_loggers {old_value : LogDefines} {i : LogDefine} {other : Bytes}
    (done : configure old_value manager i = some result)
    (registered : (manager.m_loggers other).isSome ∨ other = i.name) :
    (result.m_loggers other).isSome := by
  have new : i ∉ old_value.items := by
    intro member
    rw [configure_of_mem member] at done
    cases done
  rw [configure_of_not_mem new] at done
  have prepared : ((manager.put i.name (manager.prepare i)).m_loggers other).isSome := by
    rcases registered with there | rfl
    · exact isSome_put there
    · simp [put]
  apply @keeps_foldlM _ _ _ (fun manager => (manager.m_loggers other).isSome) _ _ _ _ done prepared
  exact fun a member before after here => isSome_addAppender_loggers here

/-- The loop registers the loggers of all definitions. -/
theorem isSome_foldlM_loggers {old_value : LogDefines} {items : List LogDefine} {i : LogDefine}
    (done : items.foldlM (configure old_value) manager = some result) (member : i ∈ items) :
    (result.m_loggers i.name).isSome := by
  induction items generalizing manager with
  | nil => cases member
  | cons first later ih =>
      rw [List.foldlM_cons] at done
      obtain ⟨next, here, onward⟩ := Option.bind_eq_some_iff.mp done
      rcases List.mem_cons.mp member with rfl | further
      · have registered := isSome_configure_loggers here (.inr rfl)
        apply @keeps_foldlM _ _ _ (fun manager => (manager.m_loggers i.name).isSome) _ _ _ _ onward
          registered
        exact fun other isOther before after round there =>
          isSome_configure_loggers round (.inl there)
      · exact ih onward further

/-! ## What is restored -/

end LoggerManager

namespace LogAppender

/-- Whether the appender writes to a file. -/
def isFile (appender : LogAppender) : Bool := appender.sink ≠ .stdout

/-- The appender as it is made again of its definition, for a logger with the formatter. -/
def remade (appender : LogAppender) (formatter : Option LogFormatter) : LogAppender :=
  LogAppender.setFormatter { sink := appender.sink, m_level := LogLevel.UNKNOW } formatter

/-- The appenders to files are made again, and no other. -/
theorem map_made_define {AppenderId : Type} (appenders : AppenderId → LogAppender)
    (formatter : Option LogFormatter) (ids : List AppenderId) :
    (ids.filterMap fun i => (appenders i).define).map (LoggerManager.made formatter) =
      (ids.filter fun i => (appenders i).isFile).map
        fun i => some ((appenders i).remade formatter) := by
  induction ids with
  | nil => rfl
  | cons i later ih =>
      cases isSink : (appenders i).sink with
      | stdout =>
          have undefined : (appenders i).define = none := by rw [define, isSink]
          have noFile : (appenders i).isFile = false := by simp [isFile, isSink]
          simp [undefined, noFile, ih]
      | file m_filename =>
          have defined : (appenders i).define = some
              { type := 1, file := m_filename, formatter := pattern (appenders i).m_formatter } := by
            rw [define, isSink]
          have inFile : (appenders i).isFile = true := by simp [isFile, isSink]
          have isMade : LoggerManager.made formatter
              { type := 1, file := m_filename, formatter := pattern (appenders i).m_formatter } =
                some ((appenders i).remade formatter) := by
            rw [remade, isSink]
            rfl
          simp [defined, inFile, isMade, ih]

end LogAppender

namespace LoggerManager

variable {yaml : Yaml} {manager start middle result : LoggerManager}

/-- A logger of the manager as the program has it that started with the dump. -/
structure Restored (manager start result : LoggerManager) (logger : Logger Nat) : Prop where
  level : (result.getLogger logger.m_name).m_level = LogLevel.kept logger.m_level
  formatter : (result.getLogger logger.m_name).m_formatter =
    if pattern logger.m_formatter = [] ∨ (LogFormatter.mk (pattern logger.m_formatter)).isError then
      (start.getLogger logger.m_name).m_formatter
    else logger.m_formatter
  appenders : (result.getLogger logger.m_name).m_appenders.map result.appenders =
    (logger.m_appenders.filter fun id => (manager.appenders id).isFile).map fun id =>
      (manager.appenders id).remade (result.getLogger logger.m_name).m_formatter
  distinct : (result.getLogger logger.m_name).m_appenders.Nodup

/-- A formatter is known by its pattern. -/
theorem some_pattern {formatter : Option LogFormatter} (written : pattern formatter ≠ []) :
    some ⟨pattern formatter⟩ = formatter := by
  cases formatter with
  | none => exact absurd rfl written
  | some formatter => rfl

/-- What the listener makes of the definition of a logger. -/
theorem Configures.restored {logger : Logger Nat} {appenders : List Nat}
    (configures : Configures (logger.define manager.appenders) appenders start result) :
    Restored manager start result logger := by
  have found : result.getLogger logger.m_name =
      { start.prepare (logger.define manager.appenders) with m_appenders := appenders } :=
    configures.logger
  have formatter : (result.getLogger logger.m_name).m_formatter =
      (start.prepare (logger.define manager.appenders)).m_formatter := by rw [found]
  constructor
  case level =>
    rw [found]
    exact m_level_prepare
  case formatter =>
    rw [formatter, m_formatter_prepare]
    by_cases unset : pattern logger.m_formatter = [] ∨
        (LogFormatter.mk (pattern logger.m_formatter)).isError = true
    · rw [if_pos unset]
      exact if_pos unset
    · rw [if_neg unset]
      exact (if_neg unset).trans (some_pattern (not_or.mp unset).1)
  case appenders =>
    have isMade := configures.made
    rw [← formatter] at isMade
    have remade := LogAppender.map_made_define manager.appenders
      (result.getLogger logger.m_name).m_formatter logger.m_appenders
    have same := isMade.symm.trans remade
    rw [found]
    apply List.map_injective_iff.mpr (Option.some_injective LogAppender)
    rw [List.map_map, List.map_map]
    rw [found] at same
    exact same
  case distinct =>
    rw [found]
    exact configures.distinct

/-- Without old definitions the listener gives a result for those of a dump. -/
theorem exists_onChange_defines (loggers : manager.Listing) (start : LoggerManager) :
    ∃ result, start.onChange .empty loggers.defines = some result := by
  apply Option.isSome_iff_exists.mp
  rw [isSome_onChange]
  intro i member
  refine ⟨List.not_mem_nil, ?_⟩
  intro a isAppender
  obtain ⟨logger, -, rfl⟩ := List.mem_map.mp member
  obtain ⟨id, -, defined⟩ := List.mem_filterMap.mp isAppender
  rw [LogAppender.define] at defined
  split at defined
  · cases defined
  · cases defined
    exact .inl rfl

/-- Without old definitions the listener ends with its first loop. -/
theorem onChange_empty {new_value : LogDefines} (done : start.onChange .empty new_value = some result) :
    new_value.items.foldlM (configure .empty) start = some result := by
  rw [onChange] at done
  obtain ⟨configured, isConfigured, rfl⟩ := Option.map_eq_some_iff.mp done
  exact isConfigured

section Reload

variable {loggers : manager.Listing} {logger : Logger Nat} {name : Bytes}

theorem restored_of_onChange (done : start.onChange .empty loggers.defines = some result)
    (member : logger ∈ loggers.items) : Restored manager start result logger := by
  have defined : logger.define manager.appenders ∈ loggers.defines.items :=
    List.mem_map_of_mem member
  obtain ⟨appenders, configures⟩ := configures_onChange done defined
  exact configures.restored

/-- The loggers without a definition stay as they are. -/
theorem getLogger_of_onChange (done : start.onChange .empty loggers.defines = some result)
    (unlisted : manager.m_loggers name = none) : result.getLogger name = start.getLogger name := by
  apply (configures_foldlM loggers.defines.distinct (onChange_empty done)).1.loggers
  intro named
  obtain ⟨i, member, rfl⟩ := List.mem_map.mp named
  obtain ⟨logger, isLogger, rfl⟩ := List.mem_map.mp member
  have registered := (loggers.complete logger.m_name logger).mpr ⟨isLogger, rfl⟩
  rw [Logger.define, registered] at unlisted
  cases unlisted

/-- The text of a dump, and the program that starts with it. -/
def Reloads (yaml : Yaml) (start : LoggerManager) (loggers : manager.Listing)
    (result : LoggerManager) : Prop :=
  ∃ text, toYamlString yaml loggers = .ok text ∧ start.loadLogs yaml text = some result

theorem reloads_iff (dumpable : Dumpable yaml loggers) :
    Reloads yaml start loggers result ↔ start.onChange .empty loggers.defines = some result := by
  obtain ⟨text, dumped, isRead⟩ := ofText_toYamlString dumpable
  have loaded : start.loadLogs yaml text = start.onChange .empty loggers.defines := by
    rw [loadLogs, isRead]
    rfl
  constructor
  · rintro ⟨other, isDump, done⟩
    rw [dumped] at isDump
    cases isDump
    rwa [loaded] at done
  · intro done
    exact ⟨text, dumped, loaded.trans done⟩

end Reload

/-- A program that starts with a dump has each logger of it with its name, its level if that has a
name, its formatter if that has a valid pattern, and again its appenders to files, in their order,
which use the formatter of the logger and have no level.  The appenders to the console are lost. -/
theorem dump_restored (yaml : Yaml) (manager start : LoggerManager) (loggers : manager.Listing)
    (dumpable : Dumpable yaml loggers) :
    ∃ result, Reloads yaml start loggers result ∧
      (∀ name logger, manager.m_loggers name = some logger →
        logger.m_name = name ∧ Restored manager start result logger) ∧
      ∀ name, manager.m_loggers name = none → result.getLogger name = start.getLogger name := by
  obtain ⟨result, done⟩ := exists_onChange_defines loggers start
  refine ⟨result, (reloads_iff dumpable).mpr done, ?_, fun name => getLogger_of_onChange done⟩
  intro name logger registered
  obtain ⟨member, named⟩ := (loggers.complete name logger).mp registered
  exact ⟨named, restored_of_onChange done member⟩

/-- Two programs have the logger of the name alike, with appenders that differ in their
identifiers. -/
structure Agrees (first second : LoggerManager) (name : Bytes) : Prop where
  level : (second.getLogger name).m_level = (first.getLogger name).m_level
  formatter : (second.getLogger name).m_formatter = (first.getLogger name).m_formatter
  appenders : (second.getLogger name).m_appenders.map second.appenders =
    (first.getLogger name).m_appenders.map first.appenders

/-- A logger that was restored is restored as it is. -/
theorem Restored.agrees {logger : Logger Nat} (first : Restored manager start middle logger)
    (named : (middle.getLogger logger.m_name).m_name = logger.m_name)
    (second : Restored middle start result (middle.getLogger logger.m_name)) :
    Agrees middle result logger.m_name := by
  have formatter : (result.getLogger logger.m_name).m_formatter =
      (middle.getLogger logger.m_name).m_formatter := by
    have again := second.formatter
    rw [named] at again
    rw [again]
    split
    next unset =>
      -- a formatter that is not set again is that of the start
      rw [first.formatter] at unset ⊢
      split
      next => rfl
      next isSet =>
        rw [if_neg isSet] at unset
        exact absurd unset isSet
    next => rfl
  have appenders := second.appenders
  rw [named, formatter] at appenders
  constructor
  case level =>
    have level := second.level
    rw [named] at level
    rw [level, first.level, LogLevel.kept_kept]
  case formatter => exact formatter
  case appenders =>
    rw [appenders]
    have each : ∀ id ∈ (middle.getLogger logger.m_name).m_appenders,
        (middle.appenders id).isFile ∧ (middle.appenders id).remade
          (middle.getLogger logger.m_name).m_formatter = middle.appenders id := by
      intro id member
      have isMade : middle.appenders id ∈
          (middle.getLogger logger.m_name).m_appenders.map middle.appenders :=
        List.mem_map_of_mem member
      rw [first.appenders] at isMade
      obtain ⟨old, isOld, remade⟩ := List.mem_map.mp isMade
      rw [← remade]
      exact ⟨(List.mem_filter.mp isOld).2, rfl⟩
    rw [List.filter_eq_self.mpr fun id member => (each id member).1]
    exact List.map_congr_left fun id member => (each id member).2

/-- A dump of a program that started with a dump changes nothing more. -/
theorem dump_settled (yaml : Yaml) (manager start middle result : LoggerManager)
    (loggers : manager.Listing) (again : middle.Listing) (dumpable : Dumpable yaml loggers)
    (dumpableAgain : Dumpable yaml again) (first : Reloads yaml start loggers middle)
    (second : Reloads yaml start again result) :
    ∀ name logger, manager.m_loggers name = some logger → Agrees middle result name := by
  intro name logger registered
  obtain ⟨member, rfl⟩ := (loggers.complete name logger).mp registered
  have firstDone := (reloads_iff dumpable).mp first
  have secondDone := (reloads_iff dumpableAgain).mp second
  have defined : logger.define manager.appenders ∈ loggers.defines.items :=
    List.mem_map_of_mem member
  have isSome := isSome_foldlM_loggers (onChange_empty firstDone) defined
  obtain ⟨found, isFound⟩ := Option.isSome_iff_exists.mp isSome
  have here : middle.getLogger logger.m_name = found := Option.getD_eq_iff.mpr (.inl isFound)
  obtain ⟨listed, named⟩ := (again.complete _ _).mp isFound
  apply (restored_of_onChange firstDone member).agrees
  · rw [here, named]
    rfl
  · rw [here]
    exact restored_of_onChange secondDone listed

/-! ## A program that starts with its own dump -/

/-- The constructor, whose root logger writes to the console and to a file. -/
def construct : LoggerManager :=
  let appenders : Nat → LogAppender := fun _ => { sink := .stdout }
  let (console, appenders) := ({} : Logger Nat).addAppender 0 appenders
  let (m_root, appenders) :=
    console.addAppender 1 (Function.update appenders 1 { sink := .file (ascii "exhy/log.txt") })
  { m_loggers := Function.update (fun _ => none) m_root.m_name (some m_root), appenders, next := 2 }

/-- The loggers of a manager that has only one. -/
def Listing.single {logger : Logger Nat}
    (only : manager.m_loggers = Function.update (fun _ => none) logger.m_name (some logger)) :
    manager.Listing where
  items := [logger]
  ascending := List.pairwise_singleton ..
  complete name other := by
    rw [only, List.mem_singleton]
    by_cases same : name = logger.m_name
    · rw [same, Function.update_self, Option.some_inj, eq_comm]
      exact ⟨fun here => ⟨here, here ▸ rfl⟩, And.left⟩
    · rw [Function.update_of_ne same]
      constructor
      · intro none
        cases none
      · rintro ⟨rfl, named⟩
        exact absurd named.symm same

/-- The root logger of a new program, and the one that is restored of it. -/
def root : Logger Nat := { m_appenders := [0, 1] }

def restoredRoot : Logger Nat := { m_appenders := [2] }

def constructed : construct.Listing := @Listing.single construct root rfl

/-- The program that started with its own dump. -/
def restarted : LoggerManager where
  m_loggers := Function.update (fun _ => none) (ascii "root") (some restoredRoot)
  appenders := Function.update construct.appenders 2
    ((construct.appenders 1).remade (some ⟨defaultPattern⟩))
  next := 3

def relisted : restarted.Listing := @Listing.single restarted restoredRoot rfl

theorem onChange_constructed : construct.onChange .empty constructed.defines = some restarted := by
  have defined : constructed.defines.items = [root.define construct.appenders] := rfl
  have asked : (root.define construct.appenders).appenders =
      [{ type := 1, file := ascii "exhy/log.txt", formatter := defaultPattern }] := rfl
  have prepared : construct.prepare (root.define construct.appenders) = {} := by decide +kernel
  have registered : construct.m_loggers =
      Function.update (fun _ => none) (ascii "root") (some root) := rfl
  have next : construct.next = 2 := rfl
  have added : addAppender (ascii "root") (construct.put (ascii "root") {})
      { type := 1, file := ascii "exhy/log.txt", formatter := defaultPattern } = some restarted := by
    rw [addAppender_eq_some]
    refine ⟨(construct.appenders 1).remade (some ⟨defaultPattern⟩), ?_, ?_⟩
    · rw [getLogger_put]
      rfl
    · rw [getLogger_put, if_pos rfl]
      simp [restarted, put, restoredRoot, registered, next]
  have configured : configure .empty construct (root.define construct.appenders) =
      some restarted := by
    rw [configure_of_not_mem List.not_mem_nil, prepared, asked, List.foldlM_cons]
    exact (congrArg (· >>= _) added).trans rfl
  rw [onChange, defined, List.foldlM_cons, configured]
  rfl

end LoggerManager

/-- How the library prints the nodes of a dump. -/
def print : (fuel : Nat) → (indent : Bytes) → Node → Bytes
  | 0, _, _ => []
  | _ + 1, _, .null => ascii "~"
  | _ + 1, _, .scalar text =>
      if text.head? = some 0x25 then ascii "\"" ++ text ++ ascii "\"" else text
  | fuel + 1, indent, .sequence items =>
      (ascii "\n" ++ indent).intercalate
        (items.map fun item => ascii "- " ++ print fuel (indent ++ ascii "  ") item)
  | fuel + 1, indent, .map entries =>
      (ascii "\n" ++ indent).intercalate (entries.map fun entry =>
        entry.1 ++ ascii ":" ++
          match entry.2 with
          | .sequence items =>
              ascii "\n" ++ indent ++ ascii "  " ++
                print fuel (indent ++ ascii "  ") (.sequence items)
          | value => ascii " " ++ print fuel indent value)

/-- The library on the documents and the empty text. -/
def Yaml.of (documents : List Node) : Yaml where
  load v :=
    ((documents.find? fun document => print 6 [] document = v).map .ok).getD
      (if v = [] then .ok .null else .error .parserException)
  emit := print 6 []
  nullString := .error .badConversion
  toIndex _ := none

section Of

variable {documents : List Node}

theorem Yaml.inverts_of (distinct : (documents.map (print 6 [])).Nodup) {document : Node}
    (member : document ∈ documents) : (Yaml.of documents).Inverts document := by
  have found : (documents.find? fun other => print 6 [] other = print 6 [] document) =
      some document := by
    cases isFound : documents.find? fun other => print 6 [] other = print 6 [] document with
    | none =>
        rw [List.find?_eq_none] at isFound
        exact absurd (decide_eq_true rfl) (isFound document member)
    | some other =>
        have same : print 6 [] other = print 6 [] document := by simpa using List.find?_some isFound
        rw [List.inj_on_of_nodup_map distinct (List.mem_of_find?_eq_some isFound) member same]
  simp only [Config.Yaml.Inverts, Yaml.of, found, Option.map_some, Option.getD_some]

theorem Yaml.fresh_of (printed : ∀ document ∈ documents, print 6 [] document ≠ []) :
    (Yaml.of documents).load [] = .ok .null := by
  have missing : (documents.find? fun document => print 6 [] document = []) = none := by
    rw [List.find?_eq_none]
    exact fun document member empty => printed document member (of_decide_eq_true empty)
  simp [Yaml.of, missing]

end Of

namespace LoggerManager

/-- What the library loads for both dumps. -/
def documents : List Node :=
  [(construct.appenders 0).node, (construct.appenders 1).node, root.node construct.appenders,
    .sequence [root.node construct.appenders], (restarted.appenders 2).node,
    restoredRoot.node restarted.appenders, .sequence [restoredRoot.node restarted.appenders]]

theorem distinct_documents : (documents.map (print 6 [])).Nodup := by decide +kernel

theorem printed_documents : ∀ document ∈ documents, print 6 [] document ≠ [] := by decide +kernel

/-- The nodes of a dump are among the documents. -/
theorem dumpable_of {manager : LoggerManager} {loggers : manager.Listing}
    (appenders : ∀ logger ∈ loggers.items, ∀ id ∈ logger.m_appenders,
      (manager.appenders id).node ∈ documents)
    (each : ∀ logger ∈ loggers.items, logger.node manager.appenders ∈ documents)
    (dump : .sequence (loggers.items.map fun i => i.node manager.appenders) ∈ documents) :
    Dumpable (Yaml.of documents) loggers where
  fresh := Yaml.fresh_of printed_documents
  appenders logger member id isAppender :=
    Yaml.inverts_of distinct_documents (appenders logger member id isAppender)
  each logger member := Yaml.inverts_of distinct_documents (each logger member)
  dump := Yaml.inverts_of distinct_documents dump

theorem dumpable_constructed : Dumpable (Yaml.of documents) constructed := by
  apply dumpable_of
  · intro logger member id isAppender
    cases List.mem_singleton.mp member
    have first : id = 0 ∨ id = 1 := by simpa [root] using isAppender
    rcases first with rfl | rfl
    · simp [documents]
    · simp [documents]
  · intro logger member
    cases List.mem_singleton.mp member
    simp [documents]
  · simp [documents, constructed, Listing.single]

theorem dumpable_relisted : Dumpable (Yaml.of documents) relisted := by
  apply dumpable_of
  · intro logger member id isAppender
    cases List.mem_singleton.mp member
    cases List.mem_singleton.mp isAppender
    simp [documents]
  · intro logger member
    cases List.mem_singleton.mp member
    simp [documents]
  · simp [documents, relisted, Listing.single]

theorem dump_restored_constructed :
    ∃ result, Reloads (Yaml.of documents) construct constructed result ∧
      (∀ name logger, construct.m_loggers name = some logger →
        logger.m_name = name ∧ Restored construct construct result logger) ∧
      ∀ name, construct.m_loggers name = none →
        result.getLogger name = construct.getLogger name := by
  apply dump_restored
  exact dumpable_constructed

theorem dump_settled_constructed :
    ∃ result, Reloads (Yaml.of documents) construct relisted result ∧
      ∀ name logger, construct.m_loggers name = some logger → Agrees restarted result name := by
  obtain ⟨result, done⟩ := exists_onChange_defines relisted construct
  have first := (reloads_iff dumpable_constructed).mpr onChange_constructed
  have second := (reloads_iff dumpable_relisted).mpr done
  refine ⟨result, second, ?_⟩
  exact dump_settled _ _ _ _ _ _ _ dumpable_constructed dumpable_relisted first second

end LoggerManager

end Exhy.Log
