import Exhy.Library.CString
import Mathlib.Data.List.Induction
import Mathlib.Logic.Function.Basic

/-!
# Servlets

`ServletDispatch` of `http_servlet.cpp`.  A servlet is known by its pointer, which is not null.
The operations hold the lock of the dispatch, so they come one after another.
-/

namespace Exhy.Http

open Library

structure ServletDispatch (Servlet : Type) where
  m_datas : Bytes → Option Servlet
  m_globs : List (Bytes × Servlet)
  m_default : Servlet

namespace ServletDispatch

variable {Servlet : Type}

/-- The constructor, with the servlet that it makes for paths that are not found. -/
def init (m_default : Servlet) : ServletDispatch Servlet where
  m_datas := fun _ => none
  m_globs := []
  m_default := m_default

variable (dispatch : ServletDispatch Servlet)

def addServlet (uri : Bytes) (slt : Servlet) : ServletDispatch Servlet :=
  { dispatch with m_datas := Function.update dispatch.m_datas uri (some slt) }

/-- The loop that takes out the first entry of a pattern. -/
def eraseGlob (uri : Bytes) : List (Bytes × Servlet) → List (Bytes × Servlet)
  | [] => []
  | it :: later => if it.1 = uri then later else it :: eraseGlob uri later

def addGlobServlet (uri : Bytes) (slt : Servlet) : ServletDispatch Servlet :=
  { dispatch with m_globs := eraseGlob uri dispatch.m_globs ++ [(uri, slt)] }

def delServlet (uri : Bytes) : ServletDispatch Servlet :=
  { dispatch with m_datas := Function.update dispatch.m_datas uri none }

def delGlobServlet (uri : Bytes) : ServletDispatch Servlet :=
  { dispatch with m_globs := eraseGlob uri dispatch.m_globs }

def getServlet (uri : Bytes) : Option Servlet := dispatch.m_datas uri

def getGlobServlet (uri : Bytes) : Option Servlet :=
  (dispatch.m_globs.find? fun it => it.1 = uri).map Prod.snd

/-- `getMatchedServlet(uri)`; `fnmatch` is zero when the pattern matches. -/
def getMatchedServlet (fnmatch : Bytes → Bytes → Int) (uri : Bytes) : Servlet :=
  match dispatch.m_datas uri with
  | some mit => mit
  | none =>
      match dispatch.m_globs.find? fun it => fnmatch it.1 uri = 0 with
      | some it => it.2
      | none => dispatch.m_default

/-! ## Sequences of operations -/

inductive Operation (Servlet : Type) where
  | addServlet (uri : Bytes) (slt : Servlet)
  | addGlobServlet (uri : Bytes) (slt : Servlet)
  | delServlet (uri : Bytes)
  | delGlobServlet (uri : Bytes)

def apply : Operation Servlet → ServletDispatch Servlet
  | .addServlet uri slt => dispatch.addServlet uri slt
  | .addGlobServlet uri slt => dispatch.addGlobServlet uri slt
  | .delServlet uri => dispatch.delServlet uri
  | .delGlobServlet uri => dispatch.delGlobServlet uri

def run (operations : List (Operation Servlet)) : ServletDispatch Servlet :=
  operations.foldl apply dispatch

namespace Operation

/-- The operation adds or deletes the servlet of a path. -/
def touches (uri : Bytes) : Operation Servlet → Bool
  | addServlet other _ | delServlet other => other = uri
  | addGlobServlet .. | delGlobServlet .. => false

/-- The operation adds or deletes a pattern. -/
def touchesGlob (uri : Bytes) : Operation Servlet → Bool
  | addGlobServlet other _ | delGlobServlet other => other = uri
  | addServlet .. | delServlet .. => false

/-- The servlet last added for a path and not deleted since. -/
def live (uri : Bytes) : List (Operation Servlet) → Option Servlet
  | [] => none
  | addServlet other slt :: later =>
      if other = uri && !later.any (touches uri) then some slt else live uri later
  | addGlobServlet .. :: later | delServlet _ :: later | delGlobServlet _ :: later =>
      live uri later

/-- The patterns last added and not deleted since, in the order of these additions. -/
def liveGlobs : List (Operation Servlet) → List (Bytes × Servlet)
  | [] => []
  | addGlobServlet uri slt :: later =>
      if later.any (touchesGlob uri) then liveGlobs later else (uri, slt) :: liveGlobs later
  | addServlet .. :: later | delServlet _ :: later | delGlobServlet _ :: later => liveGlobs later

section Live

variable {uri : Bytes} {last : Operation Servlet}

theorem live_nil : live uri ([] : List (Operation Servlet)) = none := rfl

theorem live_addServlet (other : Bytes) (slt : Servlet) (later : List (Operation Servlet)) :
    live uri (addServlet other slt :: later) =
      if other = uri && !later.any (touches uri) then some slt else live uri later := rfl

theorem liveGlobs_addGlobServlet (uri : Bytes) (slt : Servlet) (later : List (Operation Servlet)) :
    liveGlobs (addGlobServlet uri slt :: later) =
      if later.any (touchesGlob uri) then liveGlobs later else (uri, slt) :: liveGlobs later := rfl

theorem live_append_of_touches (operations : List (Operation Servlet))
    (touched : last.touches uri = true) : live uri (operations ++ [last]) = live uri [last] := by
  induction operations with
  | nil => rfl
  | cons first later ih =>
      cases first with
      | addServlet other slt =>
          have any : (later ++ [last]).any (touches uri) = true := by
            rw [List.any_append, List.any_cons, touched, Bool.true_or, Bool.or_true]
          rw [List.cons_append, live_addServlet, any, Bool.not_true, Bool.and_false,
            if_neg Bool.false_ne_true, ih]
      | addGlobServlet | delServlet | delGlobServlet => exact ih

theorem live_append_of_not_touches (operations : List (Operation Servlet))
    (untouched : last.touches uri = false) : live uri (operations ++ [last]) = live uri operations := by
  induction operations with
  | nil =>
      cases last with
      | addServlet other slt =>
          have different : ¬other = uri := of_decide_eq_false untouched
          simp [live_addServlet, live_nil, different]
      | addGlobServlet | delServlet | delGlobServlet => rfl
  | cons first later ih =>
      cases first with
      | addServlet other slt =>
          have any : (later ++ [last]).any (touches uri) = later.any (touches uri) := by
            rw [List.any_append, List.any_cons, untouched, List.any_nil, Bool.false_or, Bool.or_false]
          rw [List.cons_append, live_addServlet, live_addServlet, any, ih]
      | addGlobServlet | delServlet | delGlobServlet => exact ih

/-- The last operation takes its pattern out of the order and may add it behind. -/
theorem liveGlobs_append (operations : List (Operation Servlet)) (last : Operation Servlet) :
    liveGlobs (operations ++ [last]) =
      (liveGlobs operations).filter (fun it => !last.touchesGlob it.1) ++ liveGlobs [last] := by
  induction operations with
  | nil => rfl
  | cons first later ih =>
      cases first with
      | addGlobServlet uri slt =>
          have any : (later ++ [last]).any (touchesGlob uri) =
              (later.any (touchesGlob uri) || last.touchesGlob uri) := by
            rw [List.any_append, List.any_cons, List.any_nil, Bool.or_false]
          rw [List.cons_append, liveGlobs_addGlobServlet, liveGlobs_addGlobServlet, any, ih]
          cases later.any (touchesGlob uri) with
          | true => rfl
          | false =>
              cases touched : last.touchesGlob uri with
              | true => simp [touched]
              | false => simp [touched]
      | addServlet | delServlet | delGlobServlet => exact ih

/-- A live pattern has been touched. -/
theorem touched_of_liveGlobs {operations : List (Operation Servlet)} {it : Bytes × Servlet}
    (member : it ∈ liveGlobs operations) : operations.any (touchesGlob it.1) = true := by
  induction operations with
  | nil => cases member
  | cons first later ih =>
      rw [List.any_cons, Bool.or_eq_true]
      cases first with
      | addGlobServlet uri slt =>
          rw [liveGlobs_addGlobServlet] at member
          split at member
          next => exact .inr (ih member)
          next =>
            rcases List.mem_cons.mp member with rfl | inLater
            · exact .inl (decide_eq_true rfl)
            · exact .inr (ih inLater)
      | addServlet | delServlet | delGlobServlet => exact .inr (ih member)

theorem liveGlobs_nodup (operations : List (Operation Servlet)) :
    ((liveGlobs operations).map Prod.fst).Nodup := by
  induction operations with
  | nil => exact List.nodup_nil
  | cons first later ih =>
      cases first with
      | addGlobServlet uri slt =>
          rw [liveGlobs_addGlobServlet]
          split
          next => exact ih
          next untouched =>
            rw [List.map_cons, List.nodup_cons]
            refine ⟨fun member => ?_, ih⟩
            obtain ⟨it, isLive, same⟩ := List.mem_map.mp member
            have touched := touched_of_liveGlobs isLive
            rw [same] at touched
            exact untouched touched
      | addServlet | delServlet | delGlobServlet => exact ih

end Live

end Operation

/-! ## The dispatch over a sequence of operations -/

open Operation

theorem eraseGlob_cons (uri : Bytes) (it : Bytes × Servlet) (later : List (Bytes × Servlet)) :
    eraseGlob uri (it :: later) = if it.1 = uri then later else it :: eraseGlob uri later := rfl

/-- In a list without two entries of one pattern the loop takes out all of them. -/
theorem eraseGlob_eq_filter {uri : Bytes} {globs : List (Bytes × Servlet)}
    (nodup : (globs.map Prod.fst).Nodup) :
    eraseGlob uri globs = globs.filter fun it => !decide (it.1 = uri) := by
  induction globs with
  | nil => rfl
  | cons it later ih =>
      rw [List.map_cons, List.nodup_cons] at nodup
      rw [eraseGlob_cons, List.filter_cons]
      split
      next same =>
        have apart : ∀ other ∈ later, (!decide (other.1 = uri)) = true := by
          intro other member
          rw [Bool.not_eq_true', decide_eq_false_iff_not, ← same]
          exact fun equal => nodup.1 (equal ▸ List.mem_map_of_mem member)
        rw [decide_eq_true same, Bool.not_true, if_neg Bool.false_ne_true,
          List.filter_eq_self.mpr apart]
      next different =>
        rw [decide_eq_false different, Bool.not_false, if_pos rfl, ih nodup.2]

variable {dispatch}

theorem m_datas_apply (operation : Operation Servlet) (uri : Bytes) :
    (dispatch.apply operation).m_datas uri =
      if operation.touches uri then live uri [operation] else dispatch.m_datas uri := by
  cases operation with
  | addServlet other slt =>
      by_cases same : other = uri
      · simp [apply, addServlet, touches, live_addServlet, same]
      · simp [apply, addServlet, touches, same, Function.update_of_ne (Ne.symm same)]
  | delServlet other =>
      by_cases same : other = uri
      · simp [apply, delServlet, touches, live, same]
      · simp [apply, delServlet, touches, same, Function.update_of_ne (Ne.symm same)]
  | addGlobServlet | delGlobServlet => rfl

theorem m_globs_apply (nodup : (dispatch.m_globs.map Prod.fst).Nodup)
    (operation : Operation Servlet) :
    (dispatch.apply operation).m_globs =
      dispatch.m_globs.filter (fun it => !operation.touchesGlob it.1) ++ liveGlobs [operation] := by
  have erased := fun uri => @eraseGlob_eq_filter _ uri _ nodup
  cases operation with
  | addServlet | delServlet => simp [apply, addServlet, delServlet, touchesGlob, liveGlobs]
  | addGlobServlet uri slt =>
      simp [apply, addGlobServlet, touchesGlob, liveGlobs, erased, eq_comm]
  | delGlobServlet uri => simp [apply, delGlobServlet, touchesGlob, liveGlobs, erased, eq_comm]

theorem m_default_apply (operation : Operation Servlet) :
    (dispatch.apply operation).m_default = dispatch.m_default := by
  cases operation <;> rfl

/-- The members of the dispatch are what the sequence of operations says. -/
structure Follows (m_default : Servlet) (operations : List (Operation Servlet))
    (dispatch : ServletDispatch Servlet) : Prop where
  datas : ∀ uri, dispatch.m_datas uri = live uri operations
  globs : dispatch.m_globs = liveGlobs operations
  default : dispatch.m_default = m_default

variable {m_default : Servlet} {operations : List (Operation Servlet)}

theorem Follows.nodup (follows : Follows m_default operations dispatch) :
    (dispatch.m_globs.map Prod.fst).Nodup := by
  rw [follows.globs]
  exact liveGlobs_nodup operations

theorem Follows.apply (follows : Follows m_default operations dispatch)
    (operation : Operation Servlet) :
    Follows m_default (operations ++ [operation]) (dispatch.apply operation) where
  datas := by
    intro uri
    rw [m_datas_apply]
    split
    next touched => exact (live_append_of_touches operations touched).symm
    next untouched =>
      rw [follows.datas, live_append_of_not_touches operations (Bool.of_not_eq_true untouched)]
  globs := by
    rw [m_globs_apply follows.nodup, liveGlobs_append, follows.globs]
  default := (m_default_apply operation).trans follows.default

/-- Every sequence of operations on a new dispatch. -/
theorem follows_run (m_default : Servlet) (operations : List (Operation Servlet)) :
    Follows m_default operations ((init m_default).run operations) := by
  induction operations using List.reverseRecOn with
  | nil => exact ⟨fun _ => rfl, rfl, rfl⟩
  | append_singleton before last ih =>
      rw [run, List.foldl_append]
      exact ih.apply last

/-- What is found for exactly a path or a pattern. -/
theorem getServlet_run (m_default : Servlet) (operations : List (Operation Servlet)) (uri : Bytes) :
    ((init m_default).run operations).getServlet uri = live uri operations ∧
      ((init m_default).run operations).getGlobServlet uri =
        ((liveGlobs operations).find? fun it => it.1 = uri).map Prod.snd := by
  have follows := follows_run m_default operations
  rw [getServlet, getGlobServlet, follows.datas, follows.globs]
  exact ⟨rfl, rfl⟩

/-- Behind any sequence of operations a path has the servlet last added for it, or that of the
first live pattern that matches, or the default; no pattern is there twice, and one that is
deleted is there no more. -/
theorem getMatchedServlet_run (m_default : Servlet) (operations : List (Operation Servlet))
    (fnmatch : Bytes → Bytes → Int) (uri : Bytes) :
    ((init m_default).run operations).getMatchedServlet fnmatch uri =
        (match live uri operations with
        | some slt => slt
        | none =>
            match (liveGlobs operations).find? fun it => fnmatch it.1 uri = 0 with
            | some it => it.2
            | none => m_default) ∧
      (((init m_default).run operations).m_globs.map Prod.fst).Nodup ∧
      ∀ pattern, ∀ it ∈ (((init m_default).run operations).delGlobServlet pattern).m_globs,
        it.1 ≠ pattern := by
  have follows := follows_run m_default operations
  refine ⟨?_, follows.nodup, ?_⟩
  · rw [getMatchedServlet, follows.datas, follows.globs, follows.default]
  · intro pattern it member
    rw [delGlobServlet, eraseGlob_eq_filter follows.nodup, List.mem_filter] at member
    simpa using member.2

end ServletDispatch

end Exhy.Http
