import Exhy.Library.CString
import Exhy.Library.OrderedSet

/-!
# Requests and responses

The parts of `http.h` and `http.cpp` that the parsers fill in and the sessions read.
-/

namespace Exhy.Http

open Library

inductive HttpMethod where
  | DELETE | GET | HEAD | POST | PUT | CONNECT | OPTIONS | TRACE | COPY | LOCK | MKCOL | MOVE
  | PROPFIND | PROPPATCH | SEARCH | UNLOCK | BIND | REBIND | UNBIND | ACL | REPORT | MKACTIVITY
  | CHECKOUT | MERGE | MSEARCH | NOTIFY | SUBSCRIBE | UNSUBSCRIBE | PATCH | PURGE | MKCALENDAR
  | LINK | UNLINK | SOURCE | INVALID_METHOD
  deriving DecidableEq, Repr

/-- The methods with their texts, in the order of the macro. -/
def HTTP_METHOD_MAP : List (HttpMethod × Bytes) :=
  [(.DELETE, ascii "DELETE"), (.GET, ascii "GET"), (.HEAD, ascii "HEAD"), (.POST, ascii "POST"),
    (.PUT, ascii "PUT"), (.CONNECT, ascii "CONNECT"), (.OPTIONS, ascii "OPTIONS"),
    (.TRACE, ascii "TRACE"), (.COPY, ascii "COPY"), (.LOCK, ascii "LOCK"),
    (.MKCOL, ascii "MKCOL"), (.MOVE, ascii "MOVE"), (.PROPFIND, ascii "PROPFIND"),
    (.PROPPATCH, ascii "PROPPATCH"), (.SEARCH, ascii "SEARCH"), (.UNLOCK, ascii "UNLOCK"),
    (.BIND, ascii "BIND"), (.REBIND, ascii "REBIND"), (.UNBIND, ascii "UNBIND"),
    (.ACL, ascii "ACL"), (.REPORT, ascii "REPORT"), (.MKACTIVITY, ascii "MKACTIVITY"),
    (.CHECKOUT, ascii "CHECKOUT"), (.MERGE, ascii "MERGE"), (.MSEARCH, ascii "M-SEARCH"),
    (.NOTIFY, ascii "NOTIFY"), (.SUBSCRIBE, ascii "SUBSCRIBE"),
    (.UNSUBSCRIBE, ascii "UNSUBSCRIBE"), (.PATCH, ascii "PATCH"), (.PURGE, ascii "PURGE"),
    (.MKCALENDAR, ascii "MKCALENDAR"), (.LINK, ascii "LINK"), (.UNLINK, ascii "UNLINK"),
    (.SOURCE, ascii "SOURCE")]

/-- `CharsToHttpMethod(m)`: the first method whose text the bytes at `m` begin with. -/
def CharsToHttpMethod (m : Bytes) : HttpMethod :=
  match HTTP_METHOD_MAP.find? fun entry => entry.2.isPrefixOf m with
  | some entry => entry.1
  | none => .INVALID_METHOD

/-- A `std::map` under `CaseInsensitiveLess`, in its order. -/
abbrev MapType := List (Bytes × Bytes)

/-- `map[key] = value`: an entry that is there keeps its key. -/
def MapType.set (map : MapType) (key value : Bytes) : MapType :=
  (insertBy (fun entry => folded entry.1) (key, value) map).map fun entry =>
    if folded entry.1 = folded key then (entry.1, value) else entry

def MapType.find (map : MapType) (key : Bytes) : Option Bytes :=
  (map.find? fun entry => folded entry.1 = folded key).map Prod.snd

theorem MapType.find_set (map : MapType) (key value sought : Bytes) :
    (map.set key value).find sought =
      if folded key = folded sought then some value else map.find sought := by
  -- a value that is set keeps the keys
  have keys : ((fun entry : Bytes × Bytes => decide (folded entry.1 = folded sought)) ∘
      fun entry => if folded entry.1 = folded key then (entry.1, value) else entry) =
        fun entry => decide (folded entry.1 = folded sought) := by
    funext entry
    dsimp only [Function.comp]
    split <;> rfl
  rw [find, set, List.find?_map, keys]
  by_cases same : folded key = folded sought
  · obtain ⟨other, member, isKey⟩ :=
      exists_mem_insertBy (fun entry : Bytes × Bytes => folded entry.1) (key, value) map
    have there : (List.find? (fun entry : Bytes × Bytes => decide (folded entry.1 = folded sought))
        (insertBy (fun entry => folded entry.1) (key, value) map)).isSome = true :=
      List.find?_isSome.mpr ⟨other, member, decide_eq_true (isKey.trans same)⟩
    obtain ⟨entry, found⟩ := Option.isSome_iff_exists.mp there
    have isSought : folded entry.1 = folded sought := by simpa using List.find?_some found
    rw [if_pos same, found, Option.map_some, Option.map_some, if_pos (isSought.trans same.symm)]
  · have unchanged : List.find? (fun entry : Bytes × Bytes => decide (folded entry.1 = folded sought))
        (insertBy (fun entry => folded entry.1) (key, value) map) =
          map.find? fun entry => folded entry.1 = folded sought :=
      find?_insertBy (decide_eq_false same)
    rw [if_neg same, unchanged, find]
    cases found : List.find? (fun entry => decide (folded entry.1 = folded sought)) map with
    | none => rfl
    | some entry =>
        have isSought : folded entry.1 = folded sought := by simpa using List.find?_some found
        have other : folded entry.1 ≠ folded key := fun isKey => same (isKey.symm.trans isSought)
        rw [Option.map_some, Option.map_some, Option.map_some, if_neg other]

/-- The entries set one after another. -/
def MapType.setAll (map : MapType) (entries : List (Bytes × Bytes)) : MapType :=
  entries.foldl (fun map entry => map.set entry.1 entry.2) map

theorem MapType.setAll_append (map : MapType) (first second : List (Bytes × Bytes)) :
    map.setAll (first ++ second) = (map.setAll first).setAll second :=
  List.foldl_append ..

theorem MapType.find_setAll_of_ne {entries : List (Bytes × Bytes)} {sought : Bytes}
    (other : ∀ entry ∈ entries, folded entry.1 ≠ folded sought) (map : MapType) :
    (map.setAll entries).find sought = map.find sought := by
  induction entries generalizing map with
  | nil => rfl
  | cons entry rest ih =>
      rw [setAll, List.foldl_cons]
      apply (ih (fun later member => other later (List.mem_cons_of_mem _ member)) _).trans
      rw [find_set, if_neg (other entry List.mem_cons_self)]

/-- Entries with different keys are all found. -/
theorem MapType.find_setAll {entries : List (Bytes × Bytes)}
    (different : (entries.map fun entry => folded entry.1).Nodup) {entry : Bytes × Bytes}
    (member : entry ∈ entries) (map : MapType) :
    (map.setAll entries).find entry.1 = some entry.2 := by
  induction entries generalizing map with
  | nil => cases member
  | cons first rest ih =>
      rw [List.map_cons, List.nodup_cons] at different
      rw [setAll, List.foldl_cons]
      rcases List.mem_cons.mp member with rfl | later
      · apply (find_setAll_of_ne _ _).trans
        · rw [find_set, if_pos rfl]
        · intro other isOther same
          exact different.1 (same ▸ List.mem_map_of_mem isOther)
      · exact ih different.2 later _

/-- What is found among entries with different keys, set into a map. -/
theorem MapType.find_setAll_of_nodup {entries : MapType}
    (different : (entries.map fun entry => folded entry.1).Nodup) (map : MapType) (sought : Bytes) :
    (map.setAll entries).find sought = (entries.find sought).or (map.find sought) := by
  induction entries generalizing map with
  | nil => rfl
  | cons first rest ih =>
      rw [List.map_cons, List.nodup_cons] at different
      have head : MapType.find (first :: rest) sought =
          if folded first.1 = folded sought then some first.2 else MapType.find rest sought := by
        rw [find, List.find?_cons]
        by_cases same : folded first.1 = folded sought
        · rw [decide_eq_true same, if_pos same]
          rfl
        · rw [decide_eq_false same, if_neg same]
          rfl
      rw [setAll, List.foldl_cons]
      apply (ih different.2 (map.set first.1 first.2)).trans
      rw [find_set, head]
      split
      next same =>
        have nothing : MapType.find rest sought = none := by
          rw [find, Option.map_eq_none_iff, List.find?_eq_none]
          intro entry member isSought
          rw [decide_eq_true_eq] at isSought
          exact different.1 (same.trans isSought.symm ▸ List.mem_map_of_mem member)
        rw [nothing, Option.none_or, Option.some_or]
      next => rfl

structure HttpRequest where
  m_method : HttpMethod := .GET
  m_version : UInt8 := 0x11
  m_close : Bool := true
  m_websocket : Bool := false
  m_path : Bytes := ascii "/"
  m_query : Bytes := []
  m_fragment : Bytes := []
  m_body : Bytes := []
  m_headers : MapType := []
  deriving DecidableEq, Repr

namespace HttpRequest

def getHeader (request : HttpRequest) (key defaultValue : Bytes) : Bytes :=
  (request.m_headers.find key).getD defaultValue

def setHeader (request : HttpRequest) (key value : Bytes) : HttpRequest :=
  { request with m_headers := request.m_headers.set key value }

/-- `getHeaderAs<uint64_t>(key, def)`. -/
def getHeaderAsUInt64 (request : HttpRequest) (key : Bytes) (defaultValue : UInt64) : UInt64 :=
  match request.m_headers.find key with
  | none => defaultValue
  | some value => (lexicalCastUInt64 value).getD defaultValue

def init (request : HttpRequest) : HttpRequest :=
  let conn := request.getHeader (ascii "connection") []
  if conn ≠ [] then { request with m_close := folded conn ≠ folded (ascii "keep-alive") }
  else request

end HttpRequest

/-- A status is its code: the enumeration is an `int`. -/
structure HttpResponse where
  m_status : Int := 200
  m_version : UInt8 := 0x11
  m_close : Bool := true
  m_websocket : Bool := false
  m_body : Bytes := []
  m_reason : Bytes := []
  m_headers : MapType := []
  m_cookies : List Bytes := []
  deriving DecidableEq, Repr

namespace HttpResponse

def getHeader (response : HttpResponse) (key defaultValue : Bytes) : Bytes :=
  (response.m_headers.find key).getD defaultValue

def setHeader (response : HttpResponse) (key value : Bytes) : HttpResponse :=
  { response with m_headers := response.m_headers.set key value }

/-- `getHeaderAs<uint64_t>(key, def)`. -/
def getHeaderAsUInt64 (response : HttpResponse) (key : Bytes) (defaultValue : UInt64) : UInt64 :=
  match response.m_headers.find key with
  | none => defaultValue
  | some value => (lexicalCastUInt64 value).getD defaultValue

end HttpResponse

end Exhy.Http
