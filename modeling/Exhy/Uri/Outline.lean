import Exhy.Uri.Core

/-!
# The outline of the grammar

The parts of the grammar between its actions.  The authority, the query and the fragment stand
in the grammar twice, behind a scheme and in a relative reference.
-/

namespace Exhy.Uri

open Library Machine Grammar

/-- Behind a scheme, where the path is saved, or in a relative reference. -/
inductive Side where
  | hier
  | relative
  deriving DecidableEq

inductive Kind where
  | scheme
  | colon
  | slashes (side : Side)
  | userinfo (side : Side)
  | at (side : Side)
  | host (side : Side)
  | portColon (side : Side)
  | port (side : Side)
  | segments (side : Side)
  | path (side : Side)
  | mark (side : Side)
  | query (side : Side)
  | hash (side : Side)
  | fragment (side : Side)
  deriving DecidableEq

namespace Outline

/-- The path of a reference without an authority. -/
def barePath : Side → Machine Action
  | .hier => choice [path_absolute, path_rootless, path_empty]
  | .relative => choice [path_absolute, path_noscheme, path_empty]

def part : Kind → Machine Action
  | .scheme => Grammar.scheme
  | .colon | .portColon _ => literal ":"
  | .slashes _ => literal "//"
  | .userinfo _ => Grammar.userinfo
  | .at _ => literal "@"
  | .host _ => Grammar.host
  | .port _ => Grammar.port
  | .segments _ => path_abempty
  | .path side => barePath side
  | .mark _ => literal "?"
  | .query _ | .fragment _ => pchars
  | .hash _ => literal "#"

/-! ## Numbered actions -/

/-- The number of the action that enters the authority. -/
def authorityBase : Side → Nat
  | .hier => 2
  | .relative => 14

/-- The number of the action that enters the query. -/
def queryBase : Side → Nat
  | .hier => 10
  | .relative => 20

def action : Nat → Action
  | 0 | 10 | 12 | 20 | 22 => .marku
  | 1 => .save_scheme
  | 3 | 15 => .save_userinfo
  | 5 | 17 => .save_host
  | 7 | 19 => .save_port
  | 9 => .save_path
  | 11 | 21 => .save_query
  | 13 | 23 => .save_fragment
  | _ => .markh

section Machines

variable (side : Side)

def fragmentMachine : Machine Action :=
  leaving (queryBase side + 3) .save_fragment (entering (queryBase side + 2) .marku pchars)

def queryMachine : Machine Action :=
  leaving (queryBase side + 1) .save_query (entering (queryBase side) .marku pchars)

def tail : Machine Action :=
  seq (opt (seq (literal "?") (queryMachine side))) (opt (seq (literal "#") (fragmentMachine side)))

def portMachine : Machine Action :=
  leaving (authorityBase side + 5) .save_port (entering (authorityBase side + 4) .markh Grammar.port)

def hostMachine : Machine Action :=
  leaving (authorityBase side + 3) .save_host (entering (authorityBase side + 2) .markh Grammar.host)

def userinfoMachine : Machine Action :=
  leaving (authorityBase side + 1) .save_userinfo Grammar.userinfo

def authorityMachine : Machine Action :=
  entering (authorityBase side) .markh
    (seq (opt (seq (userinfoMachine side) (literal "@")))
      (seq (hostMachine side) (opt (seq (literal ":") (portMachine side)))))

def pathMachine : Machine Action :=
  match side with
  | .hier => leaving 9 .save_path (entering 8 .markh path_abempty)
  | .relative => path_abempty

/-- What may follow the scheme, or the whole of a relative reference. -/
def reference : Machine Action :=
  seq (alt (seq (literal "//") (seq (authorityMachine side) (pathMachine side))) (barePath side))
    (tail side)

end Machines

theorem main_eq : main =
    alt (seq (leaving 1 .save_scheme (entering 0 .marku Grammar.scheme))
      (seq (literal ":") (reference .hier))) (reference .relative) := rfl

/-! ## The steps between the parts -/

section Steps

variable (side : Side)

/-- The frames of what stands in an authority. -/
def inAuthority : List (Frame Action) := [.before (tail side), .before (pathMachine side)]

def frames : Kind → List (Frame Action)
  | .scheme => [.before (seq (literal ":") (reference .hier)), .leaving 1 .save_scheme]
  | .colon => [.before (reference .hier)]
  | .slashes side =>
      [.before (tail side), .before (seq (authorityMachine side) (pathMachine side))]
  | .userinfo side => inAuthority side ++
      [.before (seq (hostMachine side) (opt (seq (literal ":") (portMachine side)))),
        .before (literal "@"), .leaving (authorityBase side + 1) .save_userinfo]
  | .at side => inAuthority side ++
      [.before (seq (hostMachine side) (opt (seq (literal ":") (portMachine side))))]
  | .host side => inAuthority side ++
      [.before (opt (seq (literal ":") (portMachine side))),
        .leaving (authorityBase side + 3) .save_host]
  | .portColon side => inAuthority side ++ [.before (portMachine side)]
  | .port side => inAuthority side ++ [.leaving (authorityBase side + 5) .save_port]
  | .segments .hier => [.before (tail .hier), .leaving 9 .save_path]
  | .segments .relative => [.before (tail .relative)]
  | .path side => [.before (tail side)]
  | .mark side =>
      [.before (opt (seq (literal "#") (fragmentMachine side))), .before (queryMachine side)]
  | .query side =>
      [.before (opt (seq (literal "#") (fragmentMachine side))),
        .leaving (queryBase side + 1) .save_query]
  | .hash side => [.before (fragmentMachine side)]
  | .fragment side => [.leaving (queryBase side + 3) .save_fragment]

/-- What enters the path behind an authority. -/
def entersPath : List Nat :=
  match side with
  | .hier => [8]
  | .relative => []

def leavesPath : List Nat :=
  match side with
  | .hier => [9]
  | .relative => []

/-- The ways from the end of an authority. -/
def afterAuthority (numbers : List Nat) : List (Kind × List Nat) :=
  [(.segments side, numbers ++ entersPath side),
    (.mark side, numbers ++ entersPath side ++ leavesPath side),
    (.hash side, numbers ++ entersPath side ++ leavesPath side)]

/-- The ways to the host and past an empty one. -/
def toHost (numbers : List Nat) : List (Kind × List Nat) :=
  (.host side, numbers ++ [authorityBase side + 2]) ::
    (.portColon side, numbers ++ [authorityBase side + 2, authorityBase side + 3]) ::
    afterAuthority side (numbers ++ [authorityBase side + 2, authorityBase side + 3])

/-- The ways into a reference. -/
def toReference : List (Kind × List Nat) :=
  [(.slashes side, []), (.path side, []), (.mark side, []), (.hash side, [])]

def follow : Kind → List (Kind × List Nat)
  | .scheme => [(.colon, [1])]
  | .colon => toReference .hier
  | .slashes side =>
      (.userinfo side, [authorityBase side]) ::
        (.at side, [authorityBase side, authorityBase side + 1]) ::
        toHost side [authorityBase side]
  | .userinfo side => [(.at side, [authorityBase side + 1])]
  | .at side => toHost side []
  | .host side =>
      (.portColon side, [authorityBase side + 3]) ::
        afterAuthority side [authorityBase side + 3]
  | .portColon side =>
      (.port side, [authorityBase side + 4]) ::
        afterAuthority side [authorityBase side + 4, authorityBase side + 5]
  | .port side => afterAuthority side [authorityBase side + 5]
  | .segments side => [(.mark side, leavesPath side), (.hash side, leavesPath side)]
  | .path side => [(.mark side, []), (.hash side, [])]
  | .mark side =>
      [(.query side, [queryBase side]), (.hash side, [queryBase side, queryBase side + 1])]
  | .query side => [(.hash side, [queryBase side + 1])]
  | .hash side => [(.fragment side, [queryBase side + 2])]
  | .fragment _ => []

/-- What is performed when the text ends behind an authority. -/
def endsAuthority (numbers : List Nat) : Option (List Nat) :=
  some (numbers ++ entersPath side ++ leavesPath side)

def last : Kind → Option (List Nat)
  | .scheme | .userinfo _ => none
  | .colon | .path _ => some []
  | .slashes side => endsAuthority side
      [authorityBase side, authorityBase side + 2, authorityBase side + 3]
  | .at side => endsAuthority side [authorityBase side + 2, authorityBase side + 3]
  | .host side => endsAuthority side [authorityBase side + 3]
  | .portColon side => endsAuthority side [authorityBase side + 4, authorityBase side + 5]
  | .port side => endsAuthority side [authorityBase side + 5]
  | .segments side => some (leavesPath side)
  | .mark side => some [queryBase side, queryBase side + 1]
  | .query side => some [queryBase side + 1]
  | .hash side => some [queryBase side + 2, queryBase side + 3]
  | .fragment side => some [queryBase side + 3]

end Steps

/-- The parts of the grammar and the steps between them. -/
def plan : Plan Action Kind where
  part := part
  frames := frames
  action := action
  first := (.scheme, [0]) :: toReference .relative
  follow := follow
  last := last

/-! ## What the parts wait with -/

theorem exit_parts : Grammar.scheme.exit = none ∧ Grammar.userinfo.exit = some [] ∧
    Grammar.host.exit = some [] ∧ Grammar.port.exit = some [] ∧ path_abempty.exit = some [] ∧
    pchars.exit = some [] :=
  ⟨rfl, rfl, rfl, rfl, rfl, rfl⟩

theorem exit_barePath (side : Side) : (barePath side).exit = some [] := by
  cases side <;> rfl

theorem exit_literal : (literal ":" : Machine Action).exit = none ∧
    (literal "//" : Machine Action).exit = none ∧ (literal "@" : Machine Action).exit = none ∧
    (literal "?" : Machine Action).exit = none ∧ (literal "#" : Machine Action).exit = none :=
  ⟨rfl, rfl, rfl, rfl, rfl⟩

/-! ## The ways out of the parts -/

section Ways

variable (side : Side) (code : UInt8)

theorem derive_tail : (tail side).derive code =
    [(.mark side, []), (.hash side, [])].flatMap (plan.ways code) := by
  simp [tail, opt, derive, exit, exit_literal, Plan.ways, plan, part, frames, plug, Frame.put,
    Thread.andThen, Thread.after, Function.comp_def]

theorem derive_first : main.derive code =
    ((.scheme, [0]) :: toReference .relative).flatMap (plan.ways code) := by
  simp [main_eq, derive, exit, exit_parts, exit_literal, exit_barePath, reference, derive_tail,
    toReference, Plan.ways, plan, part, frames, plug, Frame.put, Thread.andThen, Thread.after,
    Function.comp_def, Plan.item, action]

theorem derive_empty (kind : Kind) : (plug (frames kind) empty).derive code =
    (follow kind).flatMap (plan.ways code) := by
  cases kind with
  | scheme | colon =>
      simp [derive, exit, exit_literal, exit_barePath, reference, derive_tail, toReference, follow,
        Plan.ways, plan, part, frames, plug, Frame.put, Thread.andThen, Thread.after,
        Function.comp_def, Plan.item, action]
  | slashes side | userinfo side | «at» side | host side | portColon side | port side
  | segments side =>
      cases side with
      | hier | relative =>
          simp [derive, exit, exit_literal, exit_parts, opt, authorityMachine, userinfoMachine,
            hostMachine, portMachine, pathMachine, derive_tail, toHost, afterAuthority, entersPath,
            leavesPath, inAuthority, authorityBase, follow, Plan.ways, plan, part, frames, plug,
            Frame.put, Thread.andThen, Thread.after, Function.comp_def, Plan.item, action]
  | path side =>
      simp [frames, plug, Frame.put, derive, exit, derive_tail, follow, Thread.after_nil]
  | mark side | query side | hash side | fragment side =>
      cases side with
      | hier | relative =>
          simp [derive, exit, exit_literal, exit_parts, opt, queryMachine, fragmentMachine,
            queryBase, follow, Plan.ways, plan, part, frames, plug, Frame.put, Thread.andThen,
            Thread.after, Function.comp_def, Plan.item, action]

theorem exit_empty (kind : Kind) : (plug (frames kind) empty).exit =
    (last kind).map (List.map plan.item) := by
  cases kind with
  | scheme | colon | path side =>
      simp [exit, exit_literal, exit_barePath, reference, last, frames, plug, Frame.put, tail, opt]
  | slashes side | userinfo side | «at» side | host side | portColon side | port side
  | segments side | mark side | query side | hash side | fragment side =>
      cases side with
      | hier | relative =>
          simp [exit, exit_literal, exit_parts, opt, authorityMachine, userinfoMachine,
            hostMachine, portMachine, pathMachine, queryMachine, fragmentMachine, tail,
            entersPath, leavesPath, inAuthority, authorityBase, queryBase, last, endsAuthority,
            plan, frames, plug, Frame.put, Plan.item, action]

theorem plain_part (kind : Kind) : (part kind).plain = true := by
  cases kind with
  | path side => cases side <;> rfl
  | _ => rfl

theorem inhabited_part (kind : Kind) : (part kind).inhabited = true := by
  cases kind with
  | scheme | colon => decide +kernel
  | _ side => cases side <;> decide +kernel

end Ways

end Outline

/-- The outline of the grammar. -/
def outline : Outline Action Kind where
  toPlan := Outline.plan
  start := main
  flat := Outline.plain_part
  alive := Outline.inhabited_part
  enters := Outline.derive_first
  leaves kind code := Outline.derive_empty code kind
  ends := Outline.exit_empty

end Exhy.Uri
