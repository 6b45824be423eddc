import Exhy.Address.Core

/-!
# Looking up a host

How `Address::Lookup` splits a host for `getaddrinfo`.  A pointer into the host is the part of
the host behind it, and `getaddrinfo` reads both of its texts as C strings.
-/

namespace Exhy.Address

open Library

/-- The hints that are not zero. -/
structure addrinfo where
  ai_family : Int
  ai_socktype : Int
  ai_protocol : Int
  deriving DecidableEq, Repr

namespace Lookup

/-- The first search: a node between brackets, and the service behind them. -/
def bracketed (host : Bytes) : Bytes × Option Bytes :=
  if host.head? = some 0x5B then
    match memchr host.tail 0x5D with
    | some endipv6 =>
        (host.tail.take (host.tail.length - endipv6.length),
          if endipv6.tail.head? = some 0x3A then some endipv6.tail.tail else none)
    | none => ([], none)
  else ([], none)

/-- The second search: a node in front of the only colon.  A pointer to the first of several
colons stays. -/
def separated (host : Bytes) : Bytes × Option Bytes :=
  match memchr host 0x3A with
  | none => ([], none)
  | some service =>
      if memchr service.tail 0x3A = none then
        (host.take (host.length - service.length), some service.tail)
      else ([], some service)

/-- The node and the service that `getaddrinfo` reads. -/
def arguments (host : Bytes) : Bytes × Option Bytes :=
  let (node, service) := bracketed host
  let (node, service) := if node = [] then separated host else (node, service)
  let node := if node = [] then host else node
  (c_str node, service.map c_str)

end Lookup

/-- `Lookup(rt, host, family, type, protocol)`, with what is in `rt` afterwards.  `getaddrinfo`
gives none for an error, else the addresses that `Create` makes of its results. -/
def Lookup {Address : Type} (getaddrinfo : Bytes → Option Bytes → addrinfo → Option (List Address))
    (rt : List Address) (host : Bytes) (family type protocol : Int) : List Address × Bool :=
  let (node, service) := Lookup.arguments host
  match getaddrinfo node service ⟨family, type, protocol⟩ with
  | none => (rt, false)
  | some results => (rt ++ results, !(rt ++ results).isEmpty)

namespace Lookup

/-! ## What a host denotes -/

/-- A node in brackets, with a service or without one. -/
def IsBracketed (host : Bytes) : Prop :=
  ∃ node rest, node ≠ [] ∧ 0x5D ∉ node ∧ host = 0x5B :: node ++ 0x5D :: rest ∧
    (rest = [] ∨ rest.head? = some 0x3A)

/-- The node and the service of a host. -/
inductive Means : Bytes → Bytes → Option Bytes → Prop where
  | bracketsService {node service : Bytes} (nonempty : node ≠ []) (inside : 0x5D ∉ node) :
      Means (0x5B :: node ++ 0x5D :: 0x3A :: service) node (some service)
  | brackets {node : Bytes} (nonempty : node ≠ []) (inside : 0x5D ∉ node) :
      Means (0x5B :: node ++ [0x5D]) node none
  | service {node service : Bytes} (nonempty : node ≠ []) (before : 0x3A ∉ node)
      (behind : 0x3A ∉ service) (other : ¬IsBracketed (node ++ 0x3A :: service)) :
      Means (node ++ 0x3A :: service) node (some service)
  | whole {host : Bytes} (noBracket : host.head? ≠ some 0x5B)
      (other : ∀ node service, node ≠ [] → 0x3A ∉ node → 0x3A ∉ service →
        host ≠ node ++ 0x3A :: service) : Means host host none

/-- The pointer of a search whose node is not used is handed on. -/
def Leaks (host : Bytes) : Prop :=
  host.head? ≠ some 0x5B ∧ (host.head? = some 0x3A ∨ 2 ≤ host.count 0x3A)

/-- What is behind the brackets is neither a service nor nothing, and is ignored. -/
def Drops (host : Bytes) : Prop :=
  ∃ node rest, node ≠ [] ∧ 0x5D ∉ node ∧ host = 0x5B :: node ++ 0x5D :: rest ∧
    rest ≠ [] ∧ rest.head? ≠ some 0x3A

/-! ## The searches -/

section Searches

variable {node rest service host : Bytes}

theorem bracketed_of_head (noBracket : host.head? ≠ some 0x5B) : bracketed host = ([], none) :=
  if_neg noBracket

theorem bracketed_of_not_mem (open_ : 0x5D ∉ rest) : bracketed (0x5B :: rest) = ([], none) := by
  rw [bracketed, if_pos List.head?_cons, List.tail_cons, memchr_of_not_mem open_]

theorem bracketed_cons (inside : 0x5D ∉ node) (rest : Bytes) :
    bracketed (0x5B :: node ++ 0x5D :: rest) =
      (node, if rest.head? = some 0x3A then some rest.tail else none) := by
  have size : (node ++ 0x5D :: rest).length - (0x5D :: rest).length = node.length := by
    rw [List.length_append]
    omega
  rw [List.cons_append, bracketed, if_pos List.head?_cons, List.tail_cons, memchr_append inside]
  dsimp only
  rw [size, List.take_left, List.tail_cons]

theorem separated_of_not_mem (none : 0x3A ∉ host) : separated host = ([], .none) := by
  rw [separated, memchr_of_not_mem none]

theorem separated_append (before : 0x3A ∉ node) (service : Bytes) :
    separated (node ++ 0x3A :: service) =
      if memchr service 0x3A = none then (node, some service)
      else ([], some (0x3A :: service)) := by
  have size : (node ++ 0x3A :: service).length - (0x3A :: service).length = node.length := by
    rw [List.length_append]
    omega
  rw [separated, memchr_append before]
  dsimp only
  rw [size, List.take_left, List.tail_cons]

/-- The first search has found a node. -/
theorem arguments_of_bracketed (nonempty : node ≠ []) {found : Option Bytes}
    (first : bracketed host = (node, found)) : arguments host = (c_str node, found.map c_str) := by
  rw [arguments, first]
  simp only [if_neg nonempty]

/-- The second search has found a node. -/
theorem arguments_of_separated (nonempty : node ≠ []) {found stale : Option Bytes}
    (first : bracketed host = ([], stale)) (second : separated host = (node, found)) :
    arguments host = (c_str node, found.map c_str) := by
  rw [arguments, first]
  simp only [if_true, second, if_neg nonempty]

/-- No search has found a node. -/
theorem arguments_of_neither {found stale : Option Bytes} (first : bracketed host = ([], stale))
    (second : separated host = ([], found)) : arguments host = (c_str host, found.map c_str) := by
  rw [arguments, first]
  simp only [if_true, second]

/-- A text has one part in front of the first of its brackets. -/
theorem first_unique {byte : UInt8} {first second rest rest' : Bytes} (inside : byte ∉ first)
    (inside' : byte ∉ second) (same : first ++ byte :: rest = second ++ byte :: rest') :
    first = second ∧ rest = rest' := by
  have one : memchr (first ++ byte :: rest) byte = some (byte :: rest) := memchr_append inside
  have two : memchr (second ++ byte :: rest') byte = some (byte :: rest') := memchr_append inside'
  rw [same, two] at one
  have rests : rest = rest' := (List.cons.inj (Option.some.inj one)).2.symm
  subst rests
  exact ⟨List.append_cancel_right same, rfl⟩

end Searches

/-! ## What is handed on -/

section Means

variable {node service host : Bytes} {found : Option Bytes}

/-- The texts that are read are those without a zero byte. -/
theorem c_str_pair_iff : (c_str node, found.map c_str) = (node, found) ↔
    0 ∉ node ∧ ∀ service ∈ found, 0 ∉ service := by
  rw [Prod.mk.injEq, c_str_eq_self_iff]
  apply and_congr_right'
  cases found with
  | none => exact iff_of_true rfl fun service member => absurd member (Option.not_mem_none service)
  | some service =>
      rw [Option.map_some, Option.some_inj, c_str_eq_self_iff]
      constructor
      · rintro absent _ ⟨⟩
        exact absent
      · exact fun all => all service rfl

/-- A host in brackets is not ignored in part. -/
theorem not_drops_of_isBracketed (isBracketed : IsBracketed host) : ¬Drops host := by
  obtain ⟨node, rest, -, inside, rfl, form⟩ := isBracketed
  rintro ⟨node', rest', -, inside', same, some, noColon⟩
  obtain ⟨rfl, rfl⟩ := first_unique inside inside' (List.cons.inj same).2
  rcases form with none | colon
  · exact some none
  · exact noColon colon

theorem not_leaks_of_bracket {rest : Bytes} : ¬Leaks (0x5B :: rest) :=
  fun leaks => leaks.1 rfl

/-- What is handed on is read up to a zero byte. -/
theorem arguments_iff_of_clean (noLeak : ¬Leaks host) (noDrop : ¬Drops host)
    (given : arguments host = (c_str node, found.map c_str))
    (zeros : 0 ∈ host ↔ 0 ∈ node ∨ ∃ service ∈ found, 0 ∈ service) :
    arguments host = (node, found) ↔ 0 ∉ host ∧ ¬Leaks host ∧ ¬Drops host := by
  rw [given, c_str_pair_iff, zeros, not_or]
  simp only [noLeak, noDrop, not_false_eq_true, and_true, not_exists, not_and]

theorem arguments_iff_of_dirty (dirty : Leaks host ∨ Drops host)
    (other : arguments host ≠ (node, found)) :
    arguments host = (node, found) ↔ 0 ∉ host ∧ ¬Leaks host ∧ ¬Drops host := by
  apply iff_of_false other
  rintro ⟨-, noLeak, noDrop⟩
  exact dirty.elim noLeak noDrop

/-- A pointer that is left over is a service. -/
theorem arguments_ne_none {service : Bytes} (first : bracketed host = ([], none))
    (second : separated host = (node, some service)) (whole : Bytes) :
    arguments host ≠ (whole, none) := by
  rw [arguments, first]
  simp only [if_true, second]
  intro same
  cases (Prod.mk.inj same).2

theorem head_of_drops (drops : Drops host) : host.head? = some 0x5B := by
  obtain ⟨node, rest, -, -, rfl, -⟩ := drops
  rfl

theorem not_leaks_of_service (nonempty : node ≠ []) (before : 0x3A ∉ node) (behind : 0x3A ∉ service) :
    ¬Leaks (node ++ 0x3A :: service) := by
  rintro ⟨-, colon | two⟩
  · obtain ⟨first, later, rfl⟩ := List.exists_cons_of_ne_nil nonempty
    exact before (Option.some.inj colon ▸ List.mem_cons_self)
  · rw [List.count_append, List.count_cons_self, List.count_eq_zero.mpr before,
      List.count_eq_zero.mpr behind] at two
    omega

/-- One colon with a node in front of it. -/
theorem arguments_service (nonempty : node ≠ []) (before : 0x3A ∉ node) (behind : 0x3A ∉ service)
    (other : ¬IsBracketed (node ++ 0x3A :: service)) :
    arguments (node ++ 0x3A :: service) = (node, some service) ↔
      0 ∉ node ++ 0x3A :: service ∧ ¬Leaks (node ++ 0x3A :: service) ∧
        ¬Drops (node ++ 0x3A :: service) := by
  have second : separated (node ++ 0x3A :: service) = (node, some service) := by
    rw [separated_append before, memchr_of_not_mem behind, if_pos rfl]
  have zeros : 0 ∈ node ++ 0x3A :: service ↔ 0 ∈ node ∨ ∃ text ∈ some service, 0 ∈ text := by
    simp
  have noLeak := not_leaks_of_service nonempty before behind
  generalize isHost : node ++ 0x3A :: service = host at *
  have clean {stale : Option Bytes} (first : bracketed host = ([], stale)) (noDrop : ¬Drops host) :=
    arguments_iff_of_clean noLeak noDrop (arguments_of_separated nonempty first second) zeros
  by_cases bracket : host.head? = some 0x5B
  · obtain ⟨later, rfl⟩ : ∃ later, host = 0x5B :: later := List.head?_eq_some_iff.mp bracket
    by_cases closed : 0x5D ∈ later
    · obtain ⟨inner, rest, rfl, inside⟩ := List.eq_append_cons_of_mem closed
      by_cases empty : inner = []
      · subst empty
        apply clean (bracketed_cons inside rest)
        rintro ⟨node', rest', some, inside', same, -⟩
        exact some (first_unique inside inside' (List.cons.inj same).2).1.symm
      · -- the brackets have a node, so what is behind them is no service
        have some : rest ≠ [] := fun none => other ⟨inner, rest, empty, inside, rfl, .inl none⟩
        have noColon : rest.head? ≠ Option.some 0x3A := fun colon =>
          other ⟨inner, rest, empty, inside, rfl, .inr colon⟩
        apply arguments_iff_of_dirty (.inr ⟨inner, rest, empty, inside, rfl, some, noColon⟩)
        have first := bracketed_cons inside rest
        rw [if_neg noColon] at first
        rw [arguments_of_bracketed empty first]
        intro same
        cases (Prod.mk.inj same).2
    · apply clean (bracketed_of_not_mem closed)
      rintro ⟨node', rest', -, -, same, -⟩
      apply closed
      rw [(List.cons.inj same).2]
      exact List.mem_append_right _ List.mem_cons_self
  · exact clean (bracketed_of_head bracket) fun drops => bracket (head_of_drops drops)

/-- A host that is not split. -/
theorem arguments_whole (noBracket : host.head? ≠ some 0x5B)
    (other : ∀ node service, node ≠ [] → 0x3A ∉ node → 0x3A ∉ service →
      host ≠ node ++ 0x3A :: service) :
    arguments host = (host, none) ↔ 0 ∉ host ∧ ¬Leaks host ∧ ¬Drops host := by
  have first := bracketed_of_head noBracket
  by_cases colon : 0x3A ∈ host
  · obtain ⟨front, rest, rfl, before⟩ := List.eq_append_cons_of_mem colon
    have second := separated_append before rest
    by_cases more : 0x3A ∈ rest
    · have two : 2 ≤ (front ++ 0x3A :: rest).count 0x3A := by
        rw [List.count_append, List.count_cons_self]
        have positive := List.count_pos_iff.mpr more
        omega
      obtain ⟨middle, last, rfl, absent⟩ := List.eq_append_cons_of_mem more
      rw [memchr_append absent, if_neg (Option.some_ne_none _)] at second
      exact arguments_iff_of_dirty (.inl ⟨noBracket, .inr two⟩) (arguments_ne_none first second _)
    · rw [memchr_of_not_mem more, if_pos rfl] at second
      have empty : front = [] := by
        by_contra some
        exact other front rest some before more rfl
      subst empty
      exact arguments_iff_of_dirty (.inl ⟨noBracket, .inl rfl⟩) (arguments_ne_none first second _)
  · have second := separated_of_not_mem colon
    have noLeak : ¬Leaks host := by
      rintro ⟨-, isColon | two⟩
      · exact colon (List.mem_of_head? isColon)
      · rw [List.count_eq_zero.mpr colon] at two
        omega
    apply arguments_iff_of_clean noLeak (fun drops => noBracket (head_of_drops drops))
      (arguments_of_neither first second)
    simp

/-- The node and the service that a host denotes are handed on, where no byte is zero, no pointer
is left over from a search without a node, and nothing behind the brackets is ignored. -/
theorem arguments_iff (means : Means host node found) :
    arguments host = (node, found) ↔ 0 ∉ host ∧ ¬Leaks host ∧ ¬Drops host := by
  cases means with
  | @bracketsService _ service nonempty inside =>
      have first : bracketed (0x5B :: node ++ 0x5D :: 0x3A :: service) = (node, some service) :=
        bracketed_cons inside _
      apply arguments_iff_of_clean not_leaks_of_bracket
        (not_drops_of_isBracketed ⟨node, _, nonempty, inside, rfl, .inr rfl⟩)
        (arguments_of_bracketed nonempty first)
      simp
  | brackets nonempty inside =>
      have first : bracketed (0x5B :: node ++ [0x5D]) = (node, none) := bracketed_cons inside _
      apply arguments_iff_of_clean not_leaks_of_bracket
        (not_drops_of_isBracketed ⟨node, _, nonempty, inside, rfl, .inl rfl⟩)
        (arguments_of_bracketed nonempty first)
      simp
  | service nonempty before behind other => exact arguments_service nonempty before behind other
  | whole noBracket other => exact arguments_whole noBracket other

theorem arguments_iff_brackets :
    arguments (ascii "[::1]:80") = (ascii "::1", some (ascii "80")) := by
  have text : ascii "[::1]:80" = 0x5B :: ascii "::1" ++ 0x5D :: 0x3A :: ascii "80" := by decide
  have means : Means (ascii "[::1]:80") (ascii "::1") (some (ascii "80")) := by
    rw [text]
    exact .bracketsService (by decide) (by decide)
  apply (arguments_iff means).mpr
  rw [text]
  refine ⟨by decide, not_leaks_of_bracket, not_drops_of_isBracketed ?_⟩
  exact ⟨ascii "::1", 0x3A :: ascii "80", by decide, by decide, rfl, .inr rfl⟩

/-- A bare IPv6 address is looked up with the service that begins at its first colon. -/
theorem arguments_not :
    Means (ascii "fe80::1") (ascii "fe80::1") none ∧
      arguments (ascii "fe80::1") = (ascii "fe80::1", some (ascii "::1")) := by
  constructor
  · apply Means.whole (by decide)
    intro node service nonempty before behind same
    have colons := congrArg (List.count 0x3A) same
    rw [List.count_append, List.count_cons_self, List.count_eq_zero.mpr before,
      List.count_eq_zero.mpr behind] at colons
    exact absurd colons (by decide)
  · decide

end Means

end Lookup

end Exhy.Address
