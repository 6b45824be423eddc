import Exhy.Http.Dump
import Exhy.Library.Lines

/-!
# Responses that say how long they are

A peer that keeps the connection finds the next response by the `content-length` of this one.
`HttpResponse::dump` writes one behind the headers that have been set, and only for a body that
is not empty.
-/

namespace Exhy.Http

open Library

/-! ## What a peer reads -/

def isBlank (byte : UInt8) : Bool := byte = 0x20 || byte = 0x09

/-- A text without the blanks around it. -/
def trim (text : Bytes) : Bytes :=
  ((text.dropWhile isBlank).reverse.dropWhile isBlank).reverse

/-- The value of a line that is a header with this name up to letter case. -/
def contentLength (line : Bytes) : Option Bytes :=
  if 0x3A ∈ line ∧ (line.takeWhile (· ≠ 0x3A)).map toLower = ascii "content-length" then
    some (trim ((line.dropWhile (· ≠ 0x3A)).drop 1))
  else none

def contentLengths (lines : List Bytes) : List Bytes := lines.filterMap contentLength

/-- The lines up to the empty one, of which the first is that of the status, have exactly one
`content-length`, and its value is the length of what follows the empty line. -/
def Delimits : Scan → Prop
  | .reading _ _ => False
  | .ended lines behind => contentLengths lines.tail = [decimal behind.length]

instance : (scan : Scan) → Decidable (Delimits scan)
  | .reading _ _ => inferInstanceAs (Decidable False)
  | .ended lines behind =>
      inferInstanceAs (Decidable (contentLengths lines.tail = [decimal behind.length]))

/-- The text says how long its body is. -/
def SelfDelimiting (text : Bytes) : Prop := Delimits ((Scan.reading [] []).run text)

instance (text : Bytes) : Decidable (SelfDelimiting text) :=
  inferInstanceAs (Decidable (Delimits _))

/-! ## The parts of a response -/

namespace HttpResponse

/-- The line of the status. -/
def firstLine (response : HttpResponse) : Bytes :=
  dumpVersion response.m_version ++ ascii " " ++ decimal (response.m_status % 2 ^ 32).toNat ++
    ascii " " ++
    if response.m_reason = [] then HttpStatusToString response.m_status else response.m_reason

/-- The headers that are written. -/
def headers (response : HttpResponse) : MapType :=
  response.m_headers.filter fun i =>
    response.m_websocket || folded i.1 ≠ folded (ascii "connection")

/-- What the caller has a say in: status, headers and cookies. -/
def head (response : HttpResponse) : Bytes :=
  response.firstLine ++ crlf ++
    ((response.headers.flatMap fun i => (i.1 ++ ascii ": " ++ i.2) ++ crlf) ++
      response.m_cookies.flatMap fun i => (ascii "Set-Cookie: " ++ i) ++ crlf)

/-- The generated part, with the body. -/
def foot (response : HttpResponse) : Bytes :=
  dumpConnection response.m_websocket response.m_close ++
    if response.m_body ≠ [] then
      ascii "content-length: " ++ decimal response.m_body.length ++ crlf ++ crlf ++ response.m_body
    else crlf

theorem dump_eq (response : HttpResponse) : response.dump = response.head ++ response.foot := by
  have feeds : ascii "\r\n\r\n" = crlf ++ crlf := by decide
  have feed : ascii "\r\n" = crlf := by decide
  have lines : dumpHeaders response.m_websocket response.m_headers =
      response.headers.flatMap fun i => (i.1 ++ ascii ": " ++ i.2) ++ crlf := by
    rw [dumpHeaders, headers]
    congr 1
  rw [dump, head, foot, firstLine, lines, feeds, feed]
  simp only [List.append_assoc]

end HttpResponse

/-- The condition: of a body that is not empty nothing that the caller has set is a
`content-length`, and for an empty one just a zero is.  Where the text of the caller has an empty
line in it, what it has in front of that line counts, and all that follows is to be measured. -/
def HttpResponse.Delimited (response : HttpResponse) : Prop :=
  match (Scan.reading [] []).run response.head with
  | .reading lines _ =>
      contentLengths lines.tail = if response.m_body = [] then [ascii "0"] else []
  | .ended lines behind =>
      contentLengths lines.tail = [decimal (behind ++ response.foot).length]

/-! ## Single lines -/

theorem takeWhile_colon {name : Bytes} (noColon : 0x3A ∉ name) (more : Bytes) :
    (name ++ 0x3A :: more).takeWhile (· ≠ 0x3A) = name := by
  rw [List.takeWhile_append_of_pos]
  · simp
  · intro byte member
    simpa using fun same : byte = 0x3A => noColon (same ▸ member)

theorem dropWhile_colon {name : Bytes} (noColon : 0x3A ∉ name) (more : Bytes) :
    (name ++ 0x3A :: more).dropWhile (· ≠ 0x3A) = 0x3A :: more := by
  rw [List.dropWhile_append_of_pos]
  · simp
  · intro byte member
    simpa using fun same : byte = 0x3A => noColon (same ▸ member)

theorem trim_blank (text : Bytes) : trim (0x20 :: text) = trim text := rfl

theorem contentLength_line {name : Bytes} (noColon : 0x3A ∉ name) (value : Bytes) :
    contentLength (name ++ ascii ": " ++ value) =
      if name.map toLower = ascii "content-length" then some (trim value) else none := by
  have parts : name ++ ascii ": " ++ value = name ++ 0x3A :: 0x20 :: value := by
    rw [List.append_assoc]
    rfl
  have colon : 0x3A ∈ name ++ 0x3A :: 0x20 :: value :=
    List.mem_append_right _ List.mem_cons_self
  rw [contentLength, parts, takeWhile_colon noColon, dropWhile_colon noColon, List.drop_one,
    List.tail_cons, trim_blank]
  simp only [colon, true_and]

/-- A text that neither begins nor ends with a blank. -/
theorem trim_of_noBlank {text : Bytes} (noBlank : ∀ byte ∈ text, isBlank byte = false) :
    trim text = text := by
  have stays : ∀ other : Bytes, (∀ byte ∈ other, isBlank byte = false) →
      other.dropWhile isBlank = other := by
    intro other none
    cases other with
    | nil => rfl
    | cons byte rest => rw [List.dropWhile_cons, none byte List.mem_cons_self, if_neg Bool.false_ne_true]
  have back : ∀ byte ∈ text.reverse, isBlank byte = false :=
    fun byte member => noBlank byte (List.mem_reverse.mp member)
  rw [trim, stays text noBlank, stays _ back, List.reverse_reverse]

theorem decimal_byte {number : Nat} {byte : UInt8} (member : byte ∈ decimal number) :
    isBlank byte = false ∧ byte ≠ 0x0A := by
  have all : ∀ code < 256, (digitValue 10 code.toUInt8).isSome = true →
      isBlank code.toUInt8 = false ∧ code.toUInt8 ≠ 0x0A := by
    decide +kernel
  exact @forall_byte (fun byte => (digitValue 10 byte).isSome = true →
    isBlank byte = false ∧ byte ≠ 0x0A) all byte (decimal_digits member)

/-! ## The generated part -/

section Foot

variable {response : HttpResponse}

theorem connection_line (m_close : Bool) :
    headerLine (ascii "connection", if m_close then ascii "close" else ascii "keep-alive") =
      (ascii "connection: " ++ if m_close then ascii "close" else ascii "keep-alive") ++ crlf := by
  cases m_close <;> decide

theorem run_connection (lines : List Bytes) (m_websocket m_close : Bool) :
    ∃ added, (Scan.reading lines []).run (dumpConnection m_websocket m_close) =
      .reading (lines ++ added) [] ∧ contentLengths added = [] := by
  rw [dumpConnection]
  cases m_websocket with
  | true =>
      refine ⟨[], ?_, rfl⟩
      rw [List.append_nil]
      rfl
  | false =>
      refine ⟨[ascii "connection: " ++ if m_close then ascii "close" else ascii "keep-alive"], ?_, ?_⟩
      · rw [if_neg Bool.false_ne_true, connection_line]
        apply Scan.run_line
        · cases m_close <;> decide
        · exact List.append_ne_nil_of_left_ne_nil (by decide) _
      · cases m_close <;> decide

theorem contentLength_decimal (number : Nat) :
    contentLength (ascii "content-length: " ++ decimal number) = some (decimal number) := by
  have own := contentLength_line (show 0x3A ∉ ascii "content-length" by decide) (decimal number)
  have spelled : (ascii "content-length").map toLower = ascii "content-length" := by decide
  rw [if_pos spelled, trim_of_noBlank fun byte member => (decimal_byte member).1] at own
  exact own

/-- The peer finds what `dump` adds behind the headers. -/
theorem run_foot (lines : List Bytes) :
    ∃ added, (Scan.reading lines []).run response.foot =
        .ended (lines ++ added) response.m_body ∧
      contentLengths added =
        if response.m_body = [] then [] else [decimal response.m_body.length] := by
  obtain ⟨added, connection, none⟩ :=
    run_connection lines response.m_websocket response.m_close
  rw [HttpResponse.foot, Scan.run_append, connection]
  by_cases empty : response.m_body = []
  · rw [if_neg (not_not.mpr empty), if_pos empty, empty, Scan.run_crlf, if_pos rfl]
    exact ⟨added, rfl, none⟩
  · have noFeed : 0x0A ∉ ascii "content-length: " ++ decimal response.m_body.length := by
      rw [List.mem_append, not_or]
      exact ⟨by decide, fun member => (decimal_byte member).2 rfl⟩
    have some : ascii "content-length: " ++ decimal response.m_body.length ≠ [] :=
      List.append_ne_nil_of_left_ne_nil (by decide) _
    rw [if_pos empty, if_neg empty, Scan.run_append, Scan.run_append,
      Scan.run_line _ noFeed some, Scan.run_crlf, if_pos rfl, Scan.run_ended, List.nil_append,
      List.append_assoc]
    refine ⟨_, rfl, ?_⟩
    rw [contentLengths, List.filterMap_append, List.filterMap_cons, contentLength_decimal]
    exact congrArg (· ++ [decimal response.m_body.length]) none

theorem begun_head (response : HttpResponse) :
    ((Scan.reading [] []).run response.head).Begun := by
  have first : ∃ rest, response.head = 0x48 :: rest := ⟨_, rfl⟩
  obtain ⟨rest, isFirst⟩ := first
  rw [isFirst]
  apply @Scan.Begun.run (.reading [] [0x48])
  exact .inr ⟨0x48, [], by decide, rfl⟩

/-- The peer has read whole lines when it comes to the generated part. -/
theorem run_head (response : HttpResponse) :
    (∃ lines, lines ≠ [] ∧ (Scan.reading [] []).run response.head = .reading lines []) ∨
      ∃ lines behind, (Scan.reading [] []).run response.head = .ended lines behind := by
  have begun := begun_head response
  have whole : ∃ text, response.head = text ++ crlf := by
    rw [HttpResponse.head]
    generalize response.headers = headers
    generalize response.m_cookies = cookies
    rcases List.eq_nil_or_concat cookies with rfl | ⟨cookies, last, rfl⟩
    · rcases List.eq_nil_or_concat headers with rfl | ⟨headers, last, rfl⟩
      · refine ⟨response.firstLine, ?_⟩
        simp
      · refine ⟨response.firstLine ++ crlf ++
          ((headers.flatMap fun i => (i.1 ++ ascii ": " ++ i.2) ++ crlf) ++
            (last.1 ++ ascii ": " ++ last.2)), ?_⟩
        simp
    · refine ⟨response.firstLine ++ crlf ++
        ((headers.flatMap fun i => (i.1 ++ ascii ": " ++ i.2) ++ crlf) ++
          ((cookies.flatMap fun i => (ascii "Set-Cookie: " ++ i) ++ crlf) ++
            (ascii "Set-Cookie: " ++ last))), ?_⟩
      simp
  obtain ⟨text, isText⟩ := whole
  rw [isText] at begun ⊢
  rcases Scan.run_concat_crlf (.reading [] []) text with ⟨lines, goesOn⟩ | ⟨lines, behind, ends⟩
  · left
    rw [goesOn] at begun
    refine ⟨lines, ?_, goesOn⟩
    rcases begun with some | ⟨byte, rest, -, nothing⟩
    · exact some
    · cases nothing
  · exact .inr ⟨lines, behind, ends⟩

/-- When the bytes of a response say how long its body is. -/
theorem selfDelimiting_iff (response : HttpResponse) :
    SelfDelimiting response.dump ↔ response.Delimited := by
  rw [SelfDelimiting, HttpResponse.dump_eq, Scan.run_append, HttpResponse.Delimited]
  rcases run_head response with ⟨lines, begun, goesOn⟩ | ⟨lines, behind, ends⟩
  · rw [goesOn]
    obtain ⟨added, ended, lengths⟩ := @run_foot response lines
    have tail : (lines ++ added).tail = lines.tail ++ added := List.tail_append_of_ne_nil begun
    have both : contentLengths (lines.tail ++ added) = contentLengths lines.tail ++ contentLengths added :=
      List.filterMap_append ..
    rw [ended, Delimits, tail, both, lengths]
    by_cases empty : response.m_body = []
    · rw [if_pos empty, if_pos empty, empty, List.append_nil]
      rfl
    · rw [if_neg empty, if_neg empty]
      constructor
      · intro same
        exact List.append_left_eq_self.mp same
      · intro none
        rw [none]
        rfl
  · rw [ends, Scan.run_ended]
    rfl

end Foot

/-! ## Texts without line feeds -/

/-- No text that the caller has set ends a line, and no name has a colon. -/
structure HttpResponse.Plain (response : HttpResponse) : Prop where
  reason : 0x0A ∉ response.m_reason
  headers : ∀ i ∈ response.m_headers, (0x0A ∉ i.1 ∧ 0x3A ∉ i.1) ∧ 0x0A ∉ i.2
  cookies : ∀ i ∈ response.m_cookies, 0x0A ∉ i

/-- The values of the headers that have been set under this name in any spelling. -/
def HttpResponse.setLengths (response : HttpResponse) : List Bytes :=
  response.m_headers.filterMap fun i =>
    if i.1.map toLower = ascii "content-length" then some (trim i.2) else none

section Plain

variable {response : HttpResponse}

theorem statusText_noFeed (s : Int) : 0x0A ∉ HttpStatusToString s := by
  have all : ∀ entry ∈ HTTP_STATUS_MAP, 0x0A ∉ entry.2 := by decide +kernel
  rw [HttpStatusToString]
  cases found : HTTP_STATUS_MAP.find? fun entry => entry.1 = s with
  | none => decide
  | some entry => exact all entry (List.mem_of_find?_eq_some found)

theorem decimal_noFeed (number : Nat) : 0x0A ∉ decimal number :=
  fun member => (decimal_byte member).2 rfl

theorem HttpResponse.Plain.firstLine (plain : response.Plain) : 0x0A ∉ response.firstLine := by
  have text : 0x0A ∉ if response.m_reason = [] then HttpStatusToString response.m_status
      else response.m_reason := by
    split
    · exact statusText_noFeed _
    · exact plain.reason
  simp only [HttpResponse.firstLine, dumpVersion, List.mem_append, not_or]
  exact ⟨⟨⟨⟨⟨⟨⟨by decide, decimal_noFeed _⟩, by decide⟩, decimal_noFeed _⟩, by decide⟩,
    decimal_noFeed _⟩, by decide⟩, text⟩

theorem HttpResponse.Plain.run_head (plain : response.Plain) :
    (Scan.reading [] []).run response.head = .reading
      (response.firstLine :: (response.headers.map (fun i => i.1 ++ ascii ": " ++ i.2) ++
        response.m_cookies.map fun i => ascii "Set-Cookie: " ++ i)) [] := by
  have first : response.firstLine ≠ [] := by
    rw [HttpResponse.firstLine, dumpVersion]
    exact List.cons_ne_nil _ _
  have headers : ∀ i ∈ response.headers, 0x0A ∉ i.1 ++ ascii ": " ++ i.2 ∧
      i.1 ++ ascii ": " ++ i.2 ≠ [] := by
    intro i member
    obtain ⟨⟨noFeed, -⟩, noFeedToo⟩ := plain.headers i (List.mem_of_mem_filter member)
    simp only [List.mem_append, not_or]
    refine ⟨⟨⟨noFeed, by decide⟩, noFeedToo⟩, ?_⟩
    exact List.append_ne_nil_of_left_ne_nil
      (List.append_ne_nil_of_right_ne_nil _ (List.cons_ne_nil _ _)) _
  have cookies : ∀ i ∈ response.m_cookies, 0x0A ∉ ascii "Set-Cookie: " ++ i ∧
      ascii "Set-Cookie: " ++ i ≠ [] := by
    intro i member
    rw [List.mem_append, not_or]
    exact ⟨⟨by decide, plain.cookies i member⟩, List.append_ne_nil_of_left_ne_nil (by decide) _⟩
  rw [HttpResponse.head, Scan.run_append, Scan.run_line _ plain.firstLine first, Scan.run_append,
    Scan.run_lines _ headers, Scan.run_lines _ cookies]
  rfl

/-- The header that `dump` leaves out is no `content-length`. -/
theorem connection_other {name : Bytes} (isConnection : folded name = folded (ascii "connection")) :
    name.map toLower ≠ ascii "content-length" := by
  intro isLength
  have noZero : ∀ byte ∈ name, byte ≠ 0 := by
    rintro byte member rfl
    have here : toLower 0 ∈ name.map toLower := List.mem_map_of_mem member
    rw [isLength] at here
    exact absurd here (by decide)
  have whole : name.takeWhile (· ≠ 0) = name := by
    rw [List.takeWhile_eq_self_iff]
    exact fun byte member => decide_eq_true (noZero byte member)
  have same : folded name = (name.map toLower).map UInt8.toNat := by
    rw [folded, whole, List.map_map]
    rfl
  rw [same, isLength] at isConnection
  exact absurd isConnection (by decide)

theorem contentLengths_headers (plain : response.Plain) :
    contentLengths (response.headers.map fun i => i.1 ++ ascii ": " ++ i.2) =
      response.setLengths := by
  rw [contentLengths, List.filterMap_map, HttpResponse.headers, List.filterMap_filter,
    HttpResponse.setLengths]
  apply List.filterMap_congr
  intro i member
  obtain ⟨⟨-, noColon⟩, -⟩ := plain.headers i member
  rw [Function.comp, contentLength_line noColon]
  split
  next => rfl
  next isConnection =>
    rw [if_neg]
    apply connection_other
    simp only [Bool.or_eq_true, decide_eq_true_eq, not_or, not_not] at isConnection
    exact isConnection.2

theorem contentLengths_cookies (cookies : List Bytes) :
    contentLengths (cookies.map fun i => ascii "Set-Cookie: " ++ i) = [] := by
  rw [contentLengths, List.filterMap_map, List.filterMap_eq_nil_iff]
  intro i _
  have own := contentLength_line (show 0x3A ∉ ascii "Set-Cookie" by decide) i
  rw [if_neg (by decide)] at own
  exact own

/-- What the condition is for such texts. -/
theorem HttpResponse.Plain.delimited_iff (plain : response.Plain) :
    response.Delimited ↔
      response.setLengths = if response.m_body = [] then [ascii "0"] else [] := by
  have split : contentLengths (response.headers.map (fun i => i.1 ++ ascii ": " ++ i.2) ++
      response.m_cookies.map fun i => ascii "Set-Cookie: " ++ i) = response.setLengths := by
    rw [contentLengths, List.filterMap_append]
    change contentLengths _ ++ contentLengths _ = _
    rw [contentLengths_headers plain, contentLengths_cookies, List.append_nil]
  rw [HttpResponse.Delimited, plain.run_head]
  dsimp only
  rw [List.tail_cons, split]

end Plain

/-- For every response, marked close or not: its bytes have exactly one `content-length` with the
length of the body exactly when it keeps to the condition; and for texts without line feeds the
condition is that no `content-length` is set where the body is not empty, and a zero elsewhere. -/
theorem dump_delimits_iff (response : HttpResponse) :
    (SelfDelimiting response.dump ↔ response.Delimited) ∧
      (response.Plain → (response.Delimited ↔
        response.setLengths = if response.m_body = [] then [ascii "0"] else [])) :=
  ⟨selfDelimiting_iff response, HttpResponse.Plain.delimited_iff⟩

/-- A response with a body and a header of another name. -/
theorem dump_delimits_iff_body : SelfDelimiting
    (({ m_close := false, m_body := ascii "hello" } : HttpResponse).setHeader
      (ascii "Content-Type") (ascii "text/plain")).dump := by
  apply (dump_delimits_iff _).1.mpr
  apply ((dump_delimits_iff _).2 ⟨by decide, by decide, by decide⟩).mpr
  decide

/-- Without a body there is no `content-length`, and with one that has been set there are two. -/
theorem dump_delimits_not :
    ¬ SelfDelimiting ({ m_close := false } : HttpResponse).dump ∧
      ¬ SelfDelimiting (({ m_close := false, m_body := ascii "hello" } : HttpResponse).setHeader
        (ascii "Content-Length") (ascii "3")).dump := by
  decide +kernel

end Exhy.Http
