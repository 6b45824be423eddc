import Exhy.Http.HttpRequestParser

/-!
# Methods

The callback for the method of a request compares the names of the table with the buffer from
the token on and does not use the length of the token, so a longer token passes for the method
that it begins with.
-/

namespace Exhy.Http

open Library

/-- `StringToHttpMethod(m)`. -/
def StringToHttpMethod (m : Bytes) : HttpMethod :=
  match HTTP_METHOD_MAP.find? fun entry => entry.2 = c_str m with
  | some entry => entry.1
  | none => .INVALID_METHOD

/-- A method of the grammar of requests. -/
structure MethodToken (token : Bytes) : Prop where
  nonempty : token ≠ []
  short : token.length ≤ 20
  letters : ∀ byte ∈ token, Machine.inRanges (Http11.Grammar.upper ++ Http11.Grammar.digit) byte = true

/-- The callback at the token sets the method that the token is, and the error where it is none. -/
structure Recognised (token rest : Bytes) : Prop where
  sets : ∀ (parser : Parsed), ∀ entry ∈ HTTP_METHOD_MAP, token = entry.2 →
    parser.on_request_method (token ++ rest) =
      { parser with m_data := { parser.m_data with m_method := entry.1 } }
  rejects : ∀ parser : Parsed, (∀ entry ∈ HTTP_METHOD_MAP, token ≠ entry.2) →
    parser.on_request_method (token ++ rest) = parser.setError 1000
  agrees : CharsToHttpMethod (token ++ rest) = StringToHttpMethod token

/-! ## The table -/

section Table

variable {entry : HttpMethod × Bytes}

/-- No name of the table begins with another one, and none is that of an invalid method. -/
theorem names_prefix_free : ∀ first ∈ HTTP_METHOD_MAP, ∀ second ∈ HTTP_METHOD_MAP,
    first.2.isPrefixOf second.2 = true → first = second := by
  decide +kernel

theorem names_valid : ∀ entry ∈ HTTP_METHOD_MAP, entry.1 ≠ .INVALID_METHOD := by
  decide

theorem entry_eq_of_begins {first second : HttpMethod × Bytes} {text : Bytes}
    (isFirst : first ∈ HTTP_METHOD_MAP) (isSecond : second ∈ HTTP_METHOD_MAP)
    (left : first.2 <+: text) (right : second.2 <+: text) : first = second := by
  rcases List.prefix_or_prefix_of_prefix left right with shorter | longer
  · exact names_prefix_free first isFirst second isSecond (List.isPrefixOf_iff_prefix.mpr shorter)
  · exact (names_prefix_free second isSecond first isFirst (List.isPrefixOf_iff_prefix.mpr longer)).symm

/-- The method that the bytes begin with. -/
theorem charsToHttpMethod_of_begins {text : Bytes} (member : entry ∈ HTTP_METHOD_MAP)
    (begins : entry.2 <+: text) : CharsToHttpMethod text = entry.1 := by
  rw [CharsToHttpMethod]
  split
  next other found =>
    have isPrefix : other.2 <+: text := by simpa using List.find?_some found
    rw [entry_eq_of_begins (List.mem_of_find?_eq_some found) member isPrefix begins]
  next none =>
    exact absurd (List.isPrefixOf_iff_prefix.mpr begins) (List.find?_eq_none.mp none entry member)

theorem charsToHttpMethod_of_none {text : Bytes}
    (none : ∀ entry ∈ HTTP_METHOD_MAP, ¬entry.2 <+: text) :
    CharsToHttpMethod text = .INVALID_METHOD := by
  rw [CharsToHttpMethod]
  split
  next other found =>
    have isPrefix : other.2 <+: text := by simpa using List.find?_some found
    exact absurd isPrefix (none other (List.mem_of_find?_eq_some found))
  next => rfl

/-- The method of a name. -/
theorem stringToHttpMethod_of_mem {token : Bytes} (noZero : 0 ∉ token)
    (member : entry ∈ HTTP_METHOD_MAP) (same : token = entry.2) :
    StringToHttpMethod token = entry.1 := by
  have whole : c_str token = token := c_str_eq_self_iff.mpr noZero
  rw [StringToHttpMethod, whole]
  split
  next other found =>
    have isName : other.2 = token := by simpa using List.find?_some found
    have prefixes : other.2 <+: token := isName ▸ List.prefix_rfl
    rw [entry_eq_of_begins (List.mem_of_find?_eq_some found) member prefixes (same ▸ List.prefix_rfl)]
  next none =>
    exact absurd (decide_eq_true same.symm) (List.find?_eq_none.mp none entry member)

theorem stringToHttpMethod_of_not_mem {token : Bytes} (noZero : 0 ∉ token)
    (unknown : ∀ entry ∈ HTTP_METHOD_MAP, token ≠ entry.2) :
    StringToHttpMethod token = .INVALID_METHOD := by
  have whole : c_str token = token := c_str_eq_self_iff.mpr noZero
  rw [StringToHttpMethod, whole]
  split
  next other found =>
    have isName : other.2 = token := by simpa using List.find?_some found
    exact absurd isName.symm (unknown other (List.mem_of_find?_eq_some found))
  next => rfl

end Table

/-! ## The callback -/

section Callback

variable {token rest : Bytes}

theorem MethodToken.noZero (isToken : MethodToken token) : 0 ∉ token :=
  fun member => absurd (isToken.letters 0 member) (by decide)

theorem on_request_method_of_valid {start : Bytes} {method : HttpMethod} (parser : Parsed)
    (isMethod : CharsToHttpMethod start = method) (valid : method ≠ .INVALID_METHOD) :
    parser.on_request_method start =
      { parser with m_data := { parser.m_data with m_method := method } } := by
  rw [Parsed.on_request_method, isMethod]
  cases method with
  | INVALID_METHOD => exact absurd rfl valid
  | _ => rfl

/-- The method is recognised where the request begins with no name but the token itself. -/
theorem recognised_iff (isToken : MethodToken token) (rest : Bytes) :
    Recognised token rest ↔
      ∀ entry ∈ HTTP_METHOD_MAP, entry.2 <+: token ++ rest → entry.2 = token := by
  have noZero := isToken.noZero
  constructor
  · intro recognised entry member begins
    by_contra other
    have agrees := recognised.agrees
    rw [charsToHttpMethod_of_begins member begins] at agrees
    by_cases known : ∃ name ∈ HTTP_METHOD_MAP, token = name.2
    · obtain ⟨name, isName, same⟩ := known
      have beginsName : name.2 <+: token ++ rest := same ▸ List.prefix_append token rest
      rw [entry_eq_of_begins member isName begins beginsName] at other
      exact other same.symm
    · have unknown : ∀ name ∈ HTTP_METHOD_MAP, token ≠ name.2 := fun name isName same =>
        known ⟨name, isName, same⟩
      rw [stringToHttpMethod_of_not_mem noZero unknown] at agrees
      exact names_valid entry member agrees
  · intro only
    have chars (entry) (member : entry ∈ HTTP_METHOD_MAP) (same : token = entry.2) :
        CharsToHttpMethod (token ++ rest) = entry.1 :=
      charsToHttpMethod_of_begins member (same ▸ List.prefix_append token rest)
    have invalid (unknown : ∀ entry ∈ HTTP_METHOD_MAP, token ≠ entry.2) :
        CharsToHttpMethod (token ++ rest) = .INVALID_METHOD :=
      charsToHttpMethod_of_none fun entry member begins =>
        unknown entry member (only entry member begins).symm
    constructor
    · exact fun parser entry member same =>
        on_request_method_of_valid parser (chars entry member same) (names_valid entry member)
    · intro parser unknown
      rw [Parsed.on_request_method, invalid unknown]
    · by_cases known : ∃ name ∈ HTTP_METHOD_MAP, token = name.2
      · obtain ⟨name, isName, same⟩ := known
        rw [chars name isName same, stringToHttpMethod_of_mem noZero isName same]
      · have unknown : ∀ name ∈ HTTP_METHOD_MAP, token ≠ name.2 := fun name isName same =>
          known ⟨name, isName, same⟩
        rw [invalid unknown, stringToHttpMethod_of_not_mem noZero unknown]

theorem recognised_iff_get : Recognised (ascii "GET") (ascii " / HTTP/1.1") := by
  have isToken : MethodToken (ascii "GET") := ⟨by decide, by decide, by decide⟩
  have isName : (HttpMethod.GET, ascii "GET") ∈ HTTP_METHOD_MAP := by decide
  apply (recognised_iff isToken _).mpr
  intro entry member begins
  exact congrArg Prod.snd (entry_eq_of_begins member isName begins (List.prefix_append _ _))

/-- The method `PUTS` of a request is taken for `PUT`. -/
theorem recognised_not :
    ({} : Parsed).on_request_method (ascii "PUTS / HTTP/1.1") =
        { ({} : Parsed) with m_data := { ({} : Parsed).m_data with m_method := .PUT } } ∧
      StringToHttpMethod (ascii "PUTS") = .INVALID_METHOD ∧
      ¬Recognised (ascii "PUTS") (ascii " / HTTP/1.1") := by
  refine ⟨by decide, by decide, ?_⟩
  intro recognised
  exact absurd recognised.agrees (by decide)

end Callback

end Exhy.Http
