import Exhy.Config.Fields
import Exhy.Log.Reconfigure

/-!
# Texts of definitions

The two `LexicalCast`s between the definition of a logger and its text, and when a definition is
read back from its text.
-/

namespace Exhy.Log

open Library Config

/-! ## The casts -/

namespace LogAppenderDefine

def typeName (a : LogAppenderDefine) : Bytes :=
  if a.type = 1 then ascii "FileLogAppender" else ascii "StdoutLogAppender"

def fields (a : LogAppenderDefine) : List (Bytes × Option Node) :=
  [(ascii "type", Node.scalarIf (a.type = 1 ∨ a.type = 2) a.typeName),
    (ascii "file", Node.scalarIf (a.type = 1) a.file),
    (ascii "level", Node.scalarIf (a.level ≠ LogLevel.UNKNOW) (LogLevel.toString a.level)),
    (ascii "formatter", Node.scalarIf (a.formatter ≠ []) a.formatter)]

/-- The node `na`. -/
def node (a : LogAppenderDefine) : Node := Node.ofFields a.fields

/-- One round of the loop over the appenders of a document; none where it is left early. -/
def ofNode (yaml : Yaml) (a : Node) : Except Thrown (Option LogAppenderDefine) := do
  match ← a.field yaml (ascii "type") with
  | none => return none
  | some type =>
      if type = ascii "FileLogAppender" then
        match ← a.field yaml (ascii "file") with
        | none => return none
        | some file =>
            let formatter := (← a.field yaml (ascii "formatter")).getD []
            return some { type := 1, file, formatter }
      else if type = ascii "StdoutLogAppender" then
        let formatter := (← a.field yaml (ascii "formatter")).getD []
        return some { type := 2, formatter }
      else return none

/-- The loop over the appenders of a document. -/
def ofNodes (yaml : Yaml) : List Node → Except Thrown (List LogAppenderDefine)
  | [] => return []
  | a :: later => do
      let lad ← ofNode yaml a
      return lad.toList ++ (← ofNodes yaml later)

end LogAppenderDefine

namespace LogDefine

def fields (i : LogDefine) : List (Bytes × Option Node) :=
  [(ascii "name", some (.scalar i.name)),
    (ascii "level", Node.scalarIf (i.level ≠ LogLevel.UNKNOW) (LogLevel.toString i.level)),
    (ascii "formatter", Node.scalarIf (i.formatter ≠ []) i.formatter),
    (ascii "appenders",
      if i.appenders = [] then none else some (.sequence (i.appenders.map LogAppenderDefine.node)))]

/-- The node `n` of the cast to a text. -/
def node (i : LogDefine) : Node := Node.ofFields i.fields

/-- `LexicalCast<LogDefine, std::string>` -/
def toText (yaml : Yaml) (i : LogDefine) : Bytes := yaml.emit i.node

/-- What `LexicalCast<std::string, LogDefine>` reads of the loaded document. -/
def ofNode (yaml : Yaml) (n : Node) : Except Thrown LogDefine := do
  match ← n.field yaml (ascii "name") with
  | none => throw (.logic_error (ascii "log config name is null"))
  | some name =>
      let level := LogLevel.fromString ((← n.field yaml (ascii "level")).getD [])
      let formatter := (← n.field yaml (ascii "formatter")).getD []
      match ← n.subscript (ascii "appenders") with
      | none => return { name, level, formatter }
      | some found =>
          let appenders ← LogAppenderDefine.ofNodes yaml (found.elements yaml)
          return { name, level, formatter, appenders }

/-- `LexicalCast<std::string, LogDefine>` -/
def ofText (yaml : Yaml) (v : Bytes) : Except Thrown LogDefine := do ofNode yaml (← yaml.load v)

end LogDefine

/-! ## What is read back -/

/-- An appender that writes to its file, or one without a file that writes to the console. -/
def LogAppenderDefine.IsTyped (a : LogAppenderDefine) : Prop := a.type = 1 ∨ a.type = 2 ∧ a.file = []

/-- The level has a name and the appenders have a type. -/
structure LogDefine.IsTyped (i : LogDefine) : Prop where
  level : LogLevel.IsNamed i.level
  appenders : ∀ a ∈ i.appenders, a.IsTyped

section ReadBack

variable (yaml : Yaml)

/-- A text that is left out where it is empty is read as it is. -/
theorem getD_ite_ne_nil (text : Bytes) : (if text ≠ [] then some text else none).getD [] = text := by
  by_cases empty : text = []
  · simp [empty]
  · simp [empty]

/-- A level that is left out where it is unknown is read as it is. -/
theorem fromString_getD {level : Level} (isNamed : LogLevel.IsNamed level) :
    LogLevel.fromString
      ((if level ≠ LogLevel.UNKNOW then some (LogLevel.toString level) else none).getD []) =
        level := by
  by_cases unknown : level = LogLevel.UNKNOW
  · subst unknown
    decide
  · rw [if_pos unknown]
    apply LogLevel.fromString_toString isNamed

namespace LogAppenderDefine

variable {a : LogAppenderDefine}

theorem distinct_fields (a : LogAppenderDefine) : (a.fields.map Prod.fst).Nodup := by
  have names : a.fields.map Prod.fst =
      [ascii "type", ascii "file", ascii "level", ascii "formatter"] := rfl
  rw [names]
  decide

theorem field_type (a : LogAppenderDefine) :
    a.node.field yaml (ascii "type") =
      .ok (if a.type = 1 ∨ a.type = 2 then some a.typeName else none) := by
  apply Node.field_ofFields yaml a.distinct_fields
  simp [fields]

theorem field_file (a : LogAppenderDefine) :
    a.node.field yaml (ascii "file") = .ok (if a.type = 1 then some a.file else none) := by
  apply Node.field_ofFields yaml a.distinct_fields
  simp [fields]

theorem field_formatter (a : LogAppenderDefine) :
    a.node.field yaml (ascii "formatter") =
      .ok (if a.formatter ≠ [] then some a.formatter else none) := by
  apply Node.field_ofFields yaml a.distinct_fields
  simp [fields]

/-- All of an appender but its level is read back. -/
theorem ofNode_node (typed : a.IsTyped) :
    ofNode yaml a.node = .ok (some { a with level := LogLevel.UNKNOW }) := by
  rw [ofNode, field_type, field_file, field_formatter]
  rcases typed with isFile | ⟨isStdout, noFile⟩
  · have name : a.typeName = ascii "FileLogAppender" := if_pos isFile
    rw [if_pos (.inl isFile), if_pos isFile, name]
    have formatter := getD_ite_ne_nil a.formatter
    simp only [bind, Except.bind, if_pos, pure, Except.pure, formatter, isFile.symm]
  · have noType : a.type ≠ 1 := by omega
    have name : a.typeName = ascii "StdoutLogAppender" := if_neg noType
    have other : ascii "StdoutLogAppender" ≠ ascii "FileLogAppender" := by decide
    rw [if_pos (.inr isStdout), name]
    have formatter := getD_ite_ne_nil a.formatter
    simp only [bind, Except.bind, if_pos, if_neg other, pure, Except.pure, formatter]
    rw [isStdout, noFile]

/-- All of the appenders but their levels is read back. -/
theorem ofNodes_map_node {appenders : List LogAppenderDefine}
    (typed : ∀ a ∈ appenders, a.IsTyped) :
    ofNodes yaml (appenders.map node) =
      .ok (appenders.map fun a => { a with level := LogLevel.UNKNOW }) := by
  induction appenders with
  | nil => rfl
  | cons a later ih =>
      rw [List.forall_mem_cons] at typed
      rw [List.map_cons, ofNodes, ofNode_node yaml typed.1, ih typed.2]
      rfl

/-- Appenders are without their levels what they are where they have none. -/
theorem map_unknown_eq_iff {appenders : List LogAppenderDefine} :
    (appenders.map fun a => { a with level := LogLevel.UNKNOW }) = appenders ↔
      ∀ a ∈ appenders, a.level = LogLevel.UNKNOW := by
  induction appenders with
  | nil => simp
  | cons a later ih =>
      rw [List.map_cons, List.cons.injEq, ih, List.forall_mem_cons]
      apply and_congr_left'
      constructor
      · intro same
        rw [← same]
      · intro unknown
        rw [← unknown]

end LogAppenderDefine

namespace LogDefine

variable {i : LogDefine}

theorem distinct_fields (i : LogDefine) : (i.fields.map Prod.fst).Nodup := by
  have names : i.fields.map Prod.fst =
      [ascii "name", ascii "level", ascii "formatter", ascii "appenders"] := rfl
  rw [names]
  decide

theorem field_name (i : LogDefine) : i.node.field yaml (ascii "name") = .ok (some i.name) := by
  have member : (ascii "name", some (.scalar i.name)) ∈ i.fields := by simp [fields]
  rw [Node.field, node, Node.subscript_ofFields i.distinct_fields member]
  rfl

theorem field_level (i : LogDefine) :
    i.node.field yaml (ascii "level") =
      .ok (if i.level ≠ LogLevel.UNKNOW then some (LogLevel.toString i.level) else none) := by
  apply Node.field_ofFields yaml i.distinct_fields
  simp [fields]

theorem field_formatter (i : LogDefine) :
    i.node.field yaml (ascii "formatter") =
      .ok (if i.formatter ≠ [] then some i.formatter else none) := by
  apply Node.field_ofFields yaml i.distinct_fields
  simp [fields]

theorem subscript_appenders (i : LogDefine) :
    i.node.subscript (ascii "appenders") =
      .ok (if i.appenders = [] then none
        else some (.sequence (i.appenders.map LogAppenderDefine.node))) := by
  apply Node.subscript_ofFields i.distinct_fields
  simp [fields]

/-- All of a definition but the levels of its appenders is read back. -/
theorem ofNode_node (typed : i.IsTyped) :
    ofNode yaml i.node =
      .ok { i with appenders := i.appenders.map fun a => { a with level := LogLevel.UNKNOW } } := by
  rw [ofNode, field_name, field_level, field_formatter, subscript_appenders]
  have level := fromString_getD typed.level
  have formatter := getD_ite_ne_nil i.formatter
  have appenders := LogAppenderDefine.ofNodes_map_node yaml typed.appenders
  by_cases empty : i.appenders = []
  · rw [if_pos empty, empty]
    simp only [bind, Except.bind, pure, Except.pure, level, formatter, List.map_nil]
  · rw [if_neg empty]
    simp only [bind, Except.bind, pure, Except.pure, level, formatter, Node.elements, appenders]

/-- A definition is read back from its text where no appender has a level. -/
theorem ofText_toText_iff (i : LogDefine) (typed : i.IsTyped)
    (inverts : yaml.load (yaml.emit i.node) = .ok i.node) :
    ofText yaml (i.toText yaml) = .ok i ↔ ∀ a ∈ i.appenders, a.level = LogLevel.UNKNOW := by
  have read : ofText yaml (i.toText yaml) = ofNode yaml i.node := by
    rw [ofText, toText, inverts]
    rfl
  rw [read, ofNode_node yaml typed, Except.ok.injEq]
  rw [← LogAppenderDefine.map_unknown_eq_iff]
  constructor
  · apply congrArg LogDefine.appenders
  · intro same
    rw [same]

end LogDefine

end ReadBack

/-- The library on one text and its document. -/
def Yaml.only (text : Bytes) (document : Node) : Yaml where
  load v := if v = text then .ok document else .error .parserException
  emit _ := text
  nullString := .error .badConversion
  toIndex _ := none

namespace LogDefine

/-- A definition with an appender that takes its own level, and its text. -/
def system : LogDefine :=
  { name := ascii "system", level := LogLevel.INFO, appenders := [{ type := 2 }] }

def systemText : Bytes :=
  ascii "name: system\nlevel: INFO\nappenders:\n  - type: StdoutLogAppender"

theorem ofText_toText_iff_system :
    ofText (Yaml.only systemText system.node) (system.toText (Yaml.only systemText system.node)) =
        .ok system ↔
      ∀ a ∈ system.appenders, a.level = LogLevel.UNKNOW := by
  apply ofText_toText_iff
  · constructor
    · exact .inr (by decide)
    · intro a member
      rw [List.mem_singleton.mp member]
      exact .inr ⟨rfl, rfl⟩
  · rfl

/-- An appender with a level of its own, and the text of its definition. -/
def loud : LogDefine :=
  { name := ascii "system", level := LogLevel.INFO,
    appenders := [{ type := 2, level := LogLevel.ERROR }] }

def loudText : Bytes :=
  ascii "name: system\nlevel: INFO\nappenders:\n  - type: StdoutLogAppender\n    level: ERROR"

/-- The level of an appender is written and not read. -/
theorem ofText_toText_not :
    loud.IsTyped ∧
      (Yaml.only loudText loud.node).load ((Yaml.only loudText loud.node).emit loud.node) =
        .ok loud.node ∧
      ofText (Yaml.only loudText loud.node) (loud.toText (Yaml.only loudText loud.node)) =
        .ok { loud with appenders := [{ type := 2 }] } ∧
      { loud with appenders := [{ type := 2 }] } ≠ loud := by
  have typed : loud.IsTyped := by
    constructor
    · exact .inr (by decide)
    · intro a member
      rw [List.mem_singleton.mp member]
      exact .inr ⟨rfl, rfl⟩
  exact ⟨typed, rfl, ofNode_node (Yaml.only loudText loud.node) typed, by decide⟩

end LogDefine

end Exhy.Log
