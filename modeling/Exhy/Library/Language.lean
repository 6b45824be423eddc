import Exhy.Library.Surroundings
import Mathlib.Computability.Language

/-!
# The language of a machine

Which texts a machine takes, whatever it performs on the way.  Without guards a run ends in a
final state just on the texts of the language.
-/

namespace Library.Machine

open Computability

universe u

variable {Action : Type u}

def language : Machine Action → Language UInt8
  | empty => 1
  | bytes ranges => {text | ∃ code, inRanges ranges code = true ∧ text = [code]}
  | seq first second | guarded _ first second => first.language * second.language
  | alt left right => left.language + right.language
  | star body => body.language∗
  | entering _ _ body | leaving _ _ body | finishing _ _ body => body.language

variable {first second body machine : Machine Action} {text : List UInt8} {code : UInt8}

/-! ## Texts and their first bytes -/

@[simp] theorem mem_language_empty : text ∈ (empty : Machine Action).language ↔ text = [] :=
  Language.mem_one text

@[simp] theorem mem_language_bytes {ranges : List (UInt8 × UInt8)} :
    text ∈ (bytes ranges : Machine Action).language ↔
      ∃ code, inRanges ranges code = true ∧ text = [code] :=
  Iff.rfl

@[simp] theorem mem_language_seq : text ∈ (seq first second).language ↔
    ∃ left right, text = left ++ right ∧ left ∈ first.language ∧ right ∈ second.language := by
  rw [language, Language.mem_mul]
  constructor
  · rintro ⟨left, inFirst, right, inSecond, rfl⟩
    exact ⟨left, right, rfl, inFirst, inSecond⟩
  · rintro ⟨left, right, rfl, inFirst, inSecond⟩
    exact ⟨left, inFirst, right, inSecond, rfl⟩

@[simp] theorem mem_language_alt : text ∈ (alt first second).language ↔
    text ∈ first.language ∨ text ∈ second.language :=
  Language.mem_add _ _ _

@[simp] theorem mem_language_opt : text ∈ (opt body).language ↔
    text ∈ body.language ∨ text = [] := by
  rw [opt, mem_language_alt, mem_language_empty]

/-- A text of a star is empty or begins with a text of its body that is not. -/
theorem mem_language_star : text ∈ (star body).language ↔
    text = [] ∨ ∃ left right, text = left ++ right ∧ left ≠ [] ∧ left ∈ body.language ∧
      right ∈ (star body).language := by
  rw [language]
  constructor
  · intro member
    obtain ⟨pieces, rfl, arePieces⟩ := Language.mem_kstar_iff_exists_nonempty.mp member
    cases pieces with
    | nil => exact .inl rfl
    | cons piece later =>
        obtain ⟨isPiece, some⟩ := arePieces piece List.mem_cons_self
        exact .inr ⟨piece, later.flatten, rfl, some, isPiece,
          Language.join_mem_kstar fun other inLater =>
            (arePieces other (List.mem_cons_of_mem _ inLater)).1⟩
  · rintro (rfl | ⟨left, right, rfl, -, inBody, inStar⟩)
    · exact Language.nil_mem_kstar _
    · obtain ⟨pieces, rfl, arePieces⟩ := Language.mem_kstar.mp inStar
      exact Language.mem_kstar.mpr ⟨left :: pieces, rfl, List.forall_mem_cons.mpr ⟨inBody, arePieces⟩⟩

theorem mem_language_byte {stop : UInt8} :
    text ∈ (bytes [(stop, stop)] : Machine Action).language ↔ text = [stop] := by
  rw [mem_language_bytes]
  constructor
  · rintro ⟨code, isStop, rfl⟩
    have both : stop ≤ code ∧ code ≤ stop := by simpa [inRanges] using isStop
    rw [UInt8.le_antisymm both.2 both.1]
  · rintro rfl
    exact ⟨stop, by simp [inRanges], rfl⟩

@[simp] theorem mem_language_literal {word : String} : text ∈ (literal word : Machine Action).language ↔
    text = word.toList.map Char.toUInt8 := by
  rw [literal, chars, List.map_map]
  induction word.toList generalizing text with
  | nil => exact mem_language_empty
  | cons char later ih =>
      cases later with
      | nil => exact mem_language_byte
      | cons next others =>
          apply mem_language_seq.trans
          rw [List.map_cons]
          constructor
          · rintro ⟨left, right, rfl, isChar, areOthers⟩
            rw [mem_language_byte.mp isChar, ih.mp areOthers]
            rfl
          · rintro rfl
            exact ⟨[char.toUInt8], _, rfl, mem_language_byte.mpr rfl, ih.mpr rfl⟩

/-- The bytes of a text are in the classes of the machine. -/
theorem classes_of_mem_language (member : text ∈ machine.language) :
    ∀ code ∈ text, ∃ ranges ∈ machine.classes, inRanges ranges code = true := by
  induction machine generalizing text with
  | empty =>
      rw [mem_language_empty.mp member]
      exact nofun
  | bytes ranges =>
      obtain ⟨code, inside, rfl⟩ := mem_language_bytes.mp member
      intro other isOther
      rw [List.mem_singleton.mp isOther]
      exact ⟨ranges, List.mem_singleton_self _, inside⟩
  | seq first second firstIH secondIH | guarded key first second firstIH secondIH =>
      obtain ⟨left, inFirst, right, inSecond, rfl⟩ := Language.mem_mul.mp member
      intro code isCode
      rcases List.mem_append.mp isCode with inLeft | inRight
      · obtain ⟨ranges, isClass, inside⟩ := firstIH inFirst code inLeft
        exact ⟨ranges, List.mem_append_left _ isClass, inside⟩
      · obtain ⟨ranges, isClass, inside⟩ := secondIH inSecond code inRight
        exact ⟨ranges, List.mem_append_right _ isClass, inside⟩
  | alt left right leftIH rightIH =>
      intro code isCode
      rcases mem_language_alt.mp member with inLeft | inRight
      · obtain ⟨ranges, isClass, inside⟩ := leftIH inLeft code isCode
        exact ⟨ranges, List.mem_append_left _ isClass, inside⟩
      · obtain ⟨ranges, isClass, inside⟩ := rightIH inRight code isCode
        exact ⟨ranges, List.mem_append_right _ isClass, inside⟩
  | star body ih =>
      obtain ⟨pieces, rfl, arePieces⟩ := Language.mem_kstar.mp member
      intro code isCode
      obtain ⟨piece, isPiece, inPiece⟩ := List.mem_flatten.mp isCode
      exact ih (arePieces piece isPiece) code inPiece
  | entering order action body ih | leaving order action body ih
  | finishing order action body ih => exact ih member

theorem not_mem_of_classes (outside : ∀ ranges ∈ machine.classes, inRanges ranges code = false)
    (member : text ∈ machine.language) : code ∉ text := by
  intro isCode
  obtain ⟨ranges, isClass, inside⟩ := classes_of_mem_language member code isCode
  rw [outside ranges isClass] at inside
  cases inside

theorem cons_mem_language_seq : code :: text ∈ (seq first second).language ↔
    (∃ left right, text = left ++ right ∧ code :: left ∈ first.language ∧
      right ∈ second.language) ∨
    [] ∈ first.language ∧ code :: text ∈ second.language := by
  rw [mem_language_seq]
  constructor
  · rintro ⟨left, right, same, inFirst, inSecond⟩
    cases left with
    | nil =>
        rw [List.nil_append] at same
        exact .inr ⟨inFirst, same ▸ inSecond⟩
    | cons head tail =>
        cases same
        exact .inl ⟨tail, right, rfl, inFirst, inSecond⟩
  · rintro (⟨left, right, rfl, inFirst, inSecond⟩ | ⟨inFirst, inSecond⟩)
    · exact ⟨code :: left, right, rfl, inFirst, inSecond⟩
    · exact ⟨[], code :: text, rfl, inFirst, inSecond⟩

theorem cons_mem_language_star : code :: text ∈ (star body).language ↔
    ∃ left right, text = left ++ right ∧ code :: left ∈ body.language ∧
      right ∈ (star body).language := by
  rw [mem_language_star]
  constructor
  · rintro (nothing | ⟨left, right, same, some, inBody, inStar⟩)
    · cases nothing
    · cases left with
      | nil => exact absurd rfl some
      | cons head tail =>
          cases same
          exact ⟨tail, right, rfl, inBody, inStar⟩
  · rintro ⟨left, right, rfl, inBody, inStar⟩
    exact .inr ⟨code :: left, right, rfl, List.cons_ne_nil _ _, inBody, inStar⟩

/-! ## Stars -/

section Stars

variable {other : Machine Action} {left right : List UInt8}

theorem append_mem_language_star (inBody : left ∈ body.language)
    (inStar : right ∈ (star body).language) : left ++ right ∈ (star body).language := by
  obtain ⟨pieces, rfl, arePieces⟩ := Language.mem_kstar.mp inStar
  exact Language.mem_kstar.mpr ⟨left :: pieces, rfl, List.forall_mem_cons.mpr ⟨inBody, arePieces⟩⟩

/-- A byte that is a piece of its own splits a text of a star. -/
theorem mem_language_star_split (alone : ∀ piece ∈ body.language, code ∈ piece → piece = [code])
    (member : left ++ code :: right ∈ (star body).language) :
    left ∈ (star body).language ∧ right ∈ (star body).language := by
  obtain ⟨pieces, same, arePieces⟩ := Language.mem_kstar.mp member
  induction pieces generalizing left with
  | nil => simp at same
  | cons piece later ih =>
      obtain ⟨isPiece, areLater⟩ := List.forall_mem_cons.mp arePieces
      have laterStar : later.flatten ∈ (star body).language := Language.join_mem_kstar areLater
      rw [List.flatten_cons, eq_comm, List.append_eq_append_iff] at same
      rcases same with ⟨onward, rfl, same⟩ | ⟨onward, rfl, same⟩
      · obtain ⟨inStar, rest⟩ := ih (same ▸ laterStar) same.symm areLater
        exact ⟨append_mem_language_star isPiece inStar, rest⟩
      · cases onward with
        | nil =>
            rw [List.append_nil] at isPiece
            have inStar : ([] : List UInt8) ++ code :: right ∈ (star body).language := same ▸ laterStar
            refine ⟨?_, (ih inStar same areLater).2⟩
            have single := append_mem_language_star isPiece (Language.nil_mem_kstar body.language)
            rwa [List.append_nil] at single
        | cons byte more =>
            obtain ⟨rfl, rfl⟩ := List.cons.inj same
            have whole := alone _ isPiece (by simp)
            rcases List.append_eq_singleton_iff.mp whole with ⟨rfl, single⟩ | ⟨-, nothing⟩
            · cases single
              exact ⟨Language.nil_mem_kstar _, laterStar⟩
            · cases nothing

/-- Pieces without a byte. -/
theorem mem_language_star_of_not_mem
    (pieces : ∀ piece ∈ body.language, code ∉ piece → piece ∈ other.language)
    (member : text ∈ (star body).language) (absent : code ∉ text) :
    text ∈ (star other).language := by
  obtain ⟨parts, rfl, areParts⟩ := Language.mem_kstar.mp member
  apply Language.join_mem_kstar
  intro piece isPiece
  apply pieces piece (areParts piece isPiece)
  intro inPiece
  exact absent (List.mem_flatten_of_mem isPiece inPiece)

theorem mem_language_star_bytes {ranges : List (UInt8 × UInt8)}
    (members : ∀ code ∈ text, inRanges ranges code = true) :
    text ∈ (star (bytes ranges) : Machine Action).language := by
  induction text with
  | nil => exact Language.nil_mem_kstar _
  | cons code rest ih =>
      obtain ⟨here, later⟩ := List.forall_mem_cons.mp members
      have inBody : [code] ∈ (bytes ranges : Machine Action).language := ⟨code, here, rfl⟩
      exact append_mem_language_star inBody (ih later)

end Stars

/-! ## First bytes -/

/-- A machine has a way to take just its first bytes. -/
theorem isEmpty_derive (machine : Machine Action) (code : UInt8) :
    (machine.derive code).isEmpty = !machine.firsts.any (inRanges · code) := by
  have isEmpty_append (left right : List (Thread Action)) :
      (left ++ right).isEmpty = (left.isEmpty && right.isEmpty) := by
    cases left with
    | nil => rfl
    | cons thread rest => rfl
  induction machine with
  | empty => rfl
  | bytes ranges =>
      rw [derive, firsts]
      split
      next takes => simp [takes]
      next refuses => simp [refuses]
  | seq first second firstIH secondIH | guarded key first second firstIH secondIH =>
      rw [derive, firsts, isEmpty_append, List.isEmpty_map, firstIH, List.any_append,
        Bool.not_or]
      cases first.exit with
      | none => rfl
      | some pending =>
          simp only [Option.isSome_some, if_true]
          rw [← secondIH, List.isEmpty_map]
  | alt left right leftIH rightIH =>
      rw [derive, firsts, isEmpty_append, leftIH, rightIH, List.any_append, Bool.not_or]
  | star body ih | entering order action body ih | leaving order action body ih
  | finishing order action body ih =>
      rw [derive, firsts, List.isEmpty_map, ih]

/-! ## Residual machines -/

theorem isSome_exit_seq : (seq first second).exit.isSome = true ↔
    first.exit.isSome = true ∧ second.exit.isSome = true := by
  rw [exit]
  cases first.exit with
  | none => simp
  | some before =>
      cases second.exit with
      | none => simp
      | some after => simp

theorem isSome_exit : machine.exit.isSome = true ↔ [] ∈ machine.language := by
  induction machine with
  | empty => simp [exit]
  | bytes ranges => simp [exit]
  | seq first second firstIH secondIH | guarded key first second firstIH secondIH =>
      have both : (seq first second).exit.isSome = true ↔ [] ∈ (seq first second).language := by
        rw [isSome_exit_seq, firstIH, secondIH, mem_language_seq]
        simp
      exact both
  | alt left right leftIH rightIH =>
      rw [mem_language_alt, ← leftIH, ← rightIH, exit]
      cases left.exit with
      | none => cases right.exit <;> simp
      | some before => cases right.exit <;> simp
  | star body ih => exact iff_of_true rfl (Language.nil_mem_kstar _)
  | entering order action body ih | leaving order action body ih =>
      rw [exit, Option.isSome_map, ih]
      rfl
  | finishing order action body ih => exact ih

/-- A concatenation goes on in its first part, or in the second one when the first may end. -/
theorem joined_language {left right : List (Thread Action)}
    (firstIH : ∀ text, code :: text ∈ first.language ↔
      ∃ thread ∈ first.derive code, text ∈ thread.rest.language)
    (secondIH : ∀ text, code :: text ∈ second.language ↔
      ∃ thread ∈ second.derive code, text ∈ thread.rest.language)
    (inFirst : ∀ text, (∃ thread ∈ left, text ∈ thread.rest.language) ↔
      ∃ thread ∈ first.derive code, text ∈ (seq thread.rest second).language)
    (inSecond : ∀ text, (∃ thread ∈ right, text ∈ thread.rest.language) ↔
      first.exit.isSome = true ∧ ∃ thread ∈ second.derive code, text ∈ thread.rest.language) :
    code :: text ∈ (seq first second).language ↔
      ∃ thread ∈ left ++ right, text ∈ thread.rest.language := by
  simp only [List.mem_append, or_and_right, exists_or]
  rw [inFirst, inSecond, cons_mem_language_seq, isSome_exit, ← secondIH]
  apply or_congr_left
  constructor
  · rintro ⟨start, rest, rfl, isStart, isRest⟩
    obtain ⟨thread, derived, inThread⟩ := (firstIH start).mp isStart
    exact ⟨thread, derived, mem_language_seq.mpr ⟨start, rest, rfl, inThread, isRest⟩⟩
  · rintro ⟨thread, derived, inThread⟩
    obtain ⟨start, rest, rfl, isStart, isRest⟩ := mem_language_seq.mp inThread
    exact ⟨start, rest, rfl, (firstIH start).mpr ⟨thread, derived, isStart⟩, isRest⟩

/-- A byte and a text are in the language when the text is in that of a residual machine. -/
theorem cons_mem_language : code :: text ∈ machine.language ↔
    ∃ thread ∈ machine.derive code, text ∈ thread.rest.language := by
  induction machine generalizing text with
  | empty => simp [derive]
  | bytes ranges =>
      rw [derive, mem_language_bytes]
      split
      next takes => simp [takes]
      next => simp_all
  | seq first second firstIH secondIH | guarded key first second firstIH secondIH =>
      rw [derive]
      apply joined_language (fun text => firstIH) (fun text => secondIH)
      · intro text
        simp [Thread.andThen, Thread.withPriority, language]
      · intro text
        cases first.exit with
        | none => simp
        | some before => simp [Thread.after, Thread.withPriority]
  | alt left right leftIH rightIH =>
      rw [mem_language_alt, leftIH, rightIH, derive]
      simp only [List.mem_append, or_and_right, exists_or]
  | star body ih =>
      rw [cons_mem_language_star, derive]
      simp only [ih, List.mem_map, exists_exists_and_eq_and, Thread.andThen, mem_language_seq]
      constructor
      · rintro ⟨left, right, same, ⟨thread, derived, inThread⟩, inStar⟩
        exact ⟨thread, derived, left, right, same, inThread, inStar⟩
      · rintro ⟨thread, derived, left, right, same, inThread, inStar⟩
        exact ⟨left, right, same, ⟨thread, derived, inThread⟩, inStar⟩
  | entering order action body ih | leaving order action body ih
  | finishing order action body ih =>
      rw [derive]
      simp only [List.mem_map, exists_exists_and_eq_and]
      exact ih

/-! ## Runs without guards -/

/-- No part of the machine is given up. -/
def unguarded : Machine Action → Bool
  | empty | bytes _ => true
  | seq first second | alt first second => first.unguarded && second.unguarded
  | star body | entering _ _ body | leaving _ _ body | finishing _ _ body => body.unguarded
  | guarded .. => false

theorem unguarded_of_plain (plain : machine.plain = true) : machine.unguarded = true := by
  induction machine with
  | empty | bytes ranges => rfl
  | seq first second firstIH secondIH | alt first second firstIH secondIH =>
      rw [Machine.plain, Bool.and_eq_true] at plain
      rw [unguarded, firstIH plain.1, secondIH plain.2]
      rfl
  | star body ih => exact ih plain
  | entering order action body | leaving order action body | finishing order action body
  | guarded key first second => cases plain

theorem derive_unguarded (free : machine.unguarded = true) {thread : Thread Action}
    (member : thread ∈ machine.derive code) :
    thread.rest.unguarded = true ∧ thread.priorities = [] := by
  induction machine generalizing thread with
  | empty => cases member
  | bytes ranges =>
      rw [derive] at member
      split at member
      next =>
        cases List.mem_singleton.mp member
        exact ⟨rfl, rfl⟩
      next => cases member
  | seq first second firstIH secondIH =>
      rw [unguarded, Bool.and_eq_true] at free
      rw [derive, List.mem_append, List.mem_map] at member
      rcases member with ⟨inner, isInner, rfl⟩ | later
      · obtain ⟨rest, priorities⟩ := firstIH free.1 isInner
        exact ⟨Bool.and_eq_true_iff.mpr ⟨rest, free.2⟩, priorities⟩
      · split at later
        next pending exits =>
          obtain ⟨inner, isInner, rfl⟩ := List.mem_map.mp later
          have inside := secondIH free.2 isInner
          exact ⟨inside.1, inside.2⟩
        next => cases later
  | alt left right leftIH rightIH =>
      rw [unguarded, Bool.and_eq_true] at free
      rw [derive, List.mem_append] at member
      exact member.elim (leftIH free.1) (rightIH free.2)
  | star body ih =>
      rw [derive, List.mem_map] at member
      obtain ⟨inner, isInner, rfl⟩ := member
      obtain ⟨rest, priorities⟩ := ih free isInner
      exact ⟨Bool.and_eq_true_iff.mpr ⟨rest, free⟩, priorities⟩
  | entering order action body ih | leaving order action body ih
  | finishing order action body ih =>
      rw [derive, List.mem_map] at member
      obtain ⟨inner, isInner, rfl⟩ := member
      have inside := ih free isInner
      exact ⟨inside.1, inside.2⟩
  | guarded key first second => cases free

variable [DecidableEq Action] {cs : List (Machine Action)}

/-- The residual machines of a state, all of which the next state has. -/
theorem exists_mem_walk_single (areFree : ∀ machine ∈ cs, machine.unguarded = true)
    (machine : Machine Action) : machine ∈ walk cs [code] ↔
      ∃ source ∈ cs, ∃ thread ∈ source.derive code, thread.rest = machine := by
  have ways : threads cs code = cs.flatMap (derive code) :=
    threads_of_priorities fun source member thread derived =>
      (derive_unguarded (areFree source member) derived).2
  have members : ∀ rest, (∃ thread ∈ threads cs code, thread.rest = rest) ↔
      ∃ source ∈ cs, ∃ thread ∈ source.derive code, thread.rest = rest := by
    intro rest
    rw [ways]
    simp only [List.mem_flatMap]
    constructor
    · rintro ⟨thread, ⟨source, isSource, derived⟩, same⟩
      exact ⟨source, isSource, thread, derived, same⟩
    · rintro ⟨source, isSource, thread, derived, same⟩
      exact ⟨thread, ⟨source, isSource, derived⟩, same⟩
  rw [← members, walk]
  split
  next stuck =>
    have nothing : threads cs code = [] := by
      rw [step] at stuck
      split at stuck
      next nothing => exact nothing
      next => cases stuck
    rw [nothing]
    simp
  next next actions stepped =>
    obtain ⟨-, left, right, -⟩ := step_spec stepped
    constructor
    · exact left machine
    · rintro ⟨thread, isThread, rfl⟩
      exact right thread isThread

theorem unguarded_walk (areFree : ∀ machine ∈ cs, machine.unguarded = true) (text : List UInt8) :
    ∀ machine ∈ walk cs text, machine.unguarded = true := by
  induction text generalizing cs with
  | nil => exact areFree
  | cons byte rest ih =>
      have whole := walk_append cs [byte] rest
      rw [List.singleton_append] at whole
      rw [whole]
      apply ih
      intro machine member
      obtain ⟨source, isSource, thread, derived, rfl⟩ :=
        (exists_mem_walk_single areFree machine).mp member
      exact (derive_unguarded (areFree source isSource) derived).1

/-- What may follow a text. -/
theorem mem_language_walk (areFree : ∀ machine ∈ cs, machine.unguarded = true)
    (first second : List UInt8) : (∃ machine ∈ walk cs first, second ∈ machine.language) ↔
      ∃ machine ∈ cs, first ++ second ∈ machine.language := by
  induction first generalizing cs with
  | nil => rfl
  | cons byte rest ih =>
      have whole := walk_append cs [byte] rest
      rw [List.singleton_append] at whole
      rw [whole, ih (unguarded_walk areFree [byte])]
      simp only [exists_mem_walk_single areFree, List.cons_append, cons_mem_language]
      constructor
      · rintro ⟨machine, ⟨source, isSource, thread, derived, rfl⟩, inRest⟩
        exact ⟨source, isSource, thread, derived, inRest⟩
      · rintro ⟨source, isSource, thread, derived, inRest⟩
        exact ⟨thread.rest, ⟨source, isSource, thread, derived, rfl⟩, inRest⟩

/-- A run may end behind a text just when the text is in the language. -/
theorem final_walk (free : machine.unguarded = true) (text : List UInt8) :
    final (walk [machine] text) = true ↔ text ∈ machine.language := by
  have whole : (∃ residual ∈ walk [machine] text, [] ∈ residual.language) ↔
      ∃ source ∈ [machine], text ++ [] ∈ source.language :=
    mem_language_walk (by simpa using free) text []
  rw [List.append_nil] at whole
  rw [final, List.any_eq_true]
  simp only [isSome_exit]
  rw [whole]
  simp

section Exec

universe v

variable {State : Type v} {effect : Nat → Action → State → Option State} {breaks : Action → Bool}
  {place stop : Nat} {state after : State}

omit [DecidableEq Action] in
theorem perform_of_quiet (quiet : ∀ action, breaks action = false) {actions : List Action} {broke : Bool}
    (performed : perform effect breaks place actions state = some (after, broke)) : broke = false := by
  induction actions generalizing state with
  | nil =>
      cases performed
      rfl
  | cons action later ih =>
      rw [perform] at performed
      split at performed
      next => cases performed
      next =>
        rw [quiet, if_neg Bool.false_ne_true] at performed
        exact ih performed

/-- A run that no action breaks ends where the machine does. -/
theorem exec_eq_walk (quiet : ∀ action, breaks action = false) {last : List (Machine Action)}
    (ran : exec effect breaks text place cs state = some (after, last, stop)) : last = walk cs text := by
  induction text generalizing place cs state with
  | nil =>
      cases ran
      rfl
  | cons byte rest ih =>
      rw [exec] at ran
      rw [walk]
      split at ran
      next =>
        cases ran
        rfl
      next next actions stepped =>
        split at ran
        next => cases ran
        next broken performed => cases perform_of_quiet quiet performed
        next onward performed => exact ih ran

end Exec

/-- A run goes on as long as the text begins one of the language. -/
theorem walk_ne_nil (free : machine.unguarded = true) {first second : List UInt8}
    (member : first ++ second ∈ machine.language) : walk [machine] first ≠ [] := by
  have whole : (∃ residual ∈ walk [machine] first, second ∈ residual.language) ↔
      ∃ source ∈ [machine], first ++ second ∈ source.language :=
    mem_language_walk (by simpa using free) first second
  obtain ⟨residual, isResidual, -⟩ := whole.mpr ⟨machine, List.mem_singleton_self _, member⟩
  exact List.ne_nil_of_mem isResidual

/-! ## Machines without an empty class -/

/-- Each class of the machine has a byte. -/
def inhabited (machine : Machine Action) : Bool :=
  machine.classes.all fun ranges => ranges.any fun range => range.1 ≤ range.2

omit [DecidableEq Action] in
theorem exists_mem_language (some : machine.inhabited = true) : ∃ text, text ∈ machine.language := by
  induction machine with
  | empty => exact ⟨[], mem_language_empty.mpr rfl⟩
  | bytes ranges =>
      simp only [inhabited, classes, List.all_cons, List.all_nil, Bool.and_true,
        List.any_eq_true] at some
      obtain ⟨range, isRange, below⟩ := some
      refine ⟨[range.1], range.1, List.any_eq_true.mpr ⟨range, isRange, ?_⟩, rfl⟩
      simpa using below
  | seq first second firstIH secondIH | guarded key first second firstIH secondIH =>
      rw [inhabited, classes, List.all_append, Bool.and_eq_true] at some
      obtain ⟨left, inFirst⟩ := firstIH some.1
      obtain ⟨right, inSecond⟩ := secondIH some.2
      exact ⟨left ++ right, Language.append_mem_mul inFirst inSecond⟩
  | alt left right leftIH rightIH =>
      rw [inhabited, classes, List.all_append, Bool.and_eq_true] at some
      obtain ⟨text, inLeft⟩ := leftIH some.1
      exact ⟨text, mem_language_alt.mpr (.inl inLeft)⟩
  | star body ih => exact ⟨[], Language.nil_mem_kstar _⟩
  | entering order action body ih | leaving order action body ih
  | finishing order action body ih => exact ih some

/-- A run goes on just when the text begins one of the language. -/
theorem walk_ne_nil_iff (free : machine.unguarded = true) (some : machine.inhabited = true)
    {first : List UInt8} :
    walk [machine] first ≠ [] ↔ ∃ second, first ++ second ∈ machine.language := by
  constructor
  · intro alive
    obtain ⟨residual, isResidual⟩ := List.exists_mem_of_ne_nil _ alive
    have known : residual.inhabited = true := by
      rw [inhabited, List.all_eq_true] at some ⊢
      intro ranges isClass
      apply some
      have inside := classes_of_walk [machine] first
        (List.mem_flatMap.mpr ⟨residual, isResidual, isClass⟩)
      simpa using inside
    obtain ⟨second, inResidual⟩ := exists_mem_language known
    have whole : (∃ residual ∈ walk [machine] first, second ∈ residual.language) ↔
        ∃ source ∈ [machine], first ++ second ∈ source.language :=
      mem_language_walk (by simpa using free) first second
    obtain ⟨source, isSource, inSource⟩ := whole.mp ⟨residual, isResidual, inResidual⟩
    rw [List.mem_singleton.mp isSource] at inSource
    exact ⟨second, inSource⟩
  · rintro ⟨second, member⟩
    exact walk_ne_nil free member

end Library.Machine
