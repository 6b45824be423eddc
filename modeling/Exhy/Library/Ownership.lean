import Mathlib.Data.List.Basic
import Mathlib.Logic.Function.Basic

/-!
# Owned resources

Owners hold resources under handles, and a handle that is free is given out again.  Resources are
numbered in the order in which they were made, so that what was done under a handle can be told to
be done on the resource that the owner made.
-/

namespace Library

universe u v

variable {Owner : Type u} {Handle : Type v}

/-- Something that an owner did under the handle that it had, on the resource that was there. -/
structure Use (Owner : Type u) (Handle : Type v) where
  owner : Owner
  handle : Option Handle
  resource : Option Nat
  releases : Bool

/-- A resource that is there was made by its maker, or from outside. -/
structure Ledger (Owner : Type u) (Handle : Type v) where
  held : Owner → Option Handle
  resources : Handle → Option Nat
  makers : List (Option Owner)
  uses : List (Use Owner Handle)

namespace Ledger

/-- Nobody holds anything. -/
def empty : Ledger Owner Handle := ⟨fun _ => none, fun _ => none, [], []⟩

def use (ledger : Ledger Owner Handle) (owner : Owner) (releases : Bool) : Ledger Owner Handle :=
  { ledger with
    uses := ledger.uses ++
      [⟨owner, ledger.held owner, (ledger.held owner).bind ledger.resources, releases⟩] }

section Change

variable [DecidableEq Owner] [DecidableEq Handle] (ledger : Ledger Owner Handle)

def acquire (owner : Owner) (handle : Handle) : Ledger Owner Handle where
  held := Function.update ledger.held owner (some handle)
  resources := Function.update ledger.resources handle (some ledger.makers.length)
  makers := ledger.makers ++ [some owner]
  uses := ledger.uses

def release (owner : Owner) (handle : Handle) : Ledger Owner Handle where
  held := Function.update ledger.held owner none
  resources := Function.update ledger.resources handle none
  makers := ledger.makers
  uses := (ledger.use owner true).uses

end Change

def acquireOutside [DecidableEq Handle] (ledger : Ledger Owner Handle) (handle : Handle) :
    Ledger Owner Handle :=
  { ledger with
    resources := Function.update ledger.resources handle (some ledger.makers.length)
    makers := ledger.makers ++ [none] }

def releaseOutside [DecidableEq Handle] (ledger : Ledger Owner Handle) (handle : Handle) :
    Ledger Owner Handle :=
  { ledger with resources := Function.update ledger.resources handle none }

/-- The resource was made by the owner. -/
def MadeBy (ledger : Ledger Owner Handle) (resource : Nat) (owner : Owner) : Prop :=
  ledger.makers[resource]? = some (some owner)

/-- The resource is under a handle. -/
def IsThere (ledger : Ledger Owner Handle) (resource : Nat) : Prop :=
  ∃ handle, ledger.resources handle = some resource

/-- How often the resource was released. -/
def releasesOf (ledger : Ledger Owner Handle) (resource : Nat) : Nat :=
  ledger.uses.countP fun use => use.releases && use.resource = some resource

/-- What an owner made is what it holds, until it releases it once; nothing is done on the resource
of another one, nor on one that was released. -/
structure Sound (ledger : Ledger Owner Handle) : Prop where
  owned : ∀ owner handle, ledger.held owner = some handle →
    ∃ resource, ledger.resources handle = some resource ∧ ledger.MadeBy resource owner
  kept : ∀ handle resource owner, ledger.resources handle = some resource →
    ledger.MadeBy resource owner → ledger.held owner = some handle
  known : ∀ handle resource, ledger.resources handle = some resource →
    resource < ledger.makers.length
  single : ∀ handle other resource, ledger.resources handle = some resource →
    ledger.resources other = some resource → handle = other
  own : ∀ use ∈ ledger.uses, ∀ handle, use.handle = some handle →
    ∃ resource, use.resource = some resource ∧ ledger.MadeBy resource use.owner
  nothing : ∀ use ∈ ledger.uses, use.handle = none → use.resource = none
  unreleased : ∀ resource owner, ledger.MadeBy resource owner → ledger.IsThere resource →
    ledger.releasesOf resource = 0
  released : ∀ resource owner, ledger.MadeBy resource owner → ¬ledger.IsThere resource →
    ledger.releasesOf resource = 1
  last : ledger.uses.Pairwise fun earlier later => earlier.releases = true →
    earlier.resource = none ∨ later.resource ≠ earlier.resource

theorem sound_empty : (empty : Ledger Owner Handle).Sound where
  owned _ _ holds := by cases holds
  kept _ _ _ there := by cases there
  known _ _ there := by cases there
  single _ _ _ there := by cases there
  own _ member := by cases member
  nothing _ member := by cases member
  unreleased _ _ made := by cases made
  released _ _ made := by cases made
  last := List.Pairwise.nil

variable {ledger : Ledger Owner Handle} {owner other : Owner} {handle : Handle} {resource : Nat}

/-- No two owners hold one handle. -/
theorem Sound.owner_unique (sound : ledger.Sound) (holds : ledger.held owner = some handle)
    (holdsToo : ledger.held other = some handle) : owner = other := by
  obtain ⟨resource, there, made⟩ := sound.owned owner handle holds
  obtain ⟨second, thereToo, madeToo⟩ := sound.owned other handle holdsToo
  cases there.symm.trans thereToo
  exact Option.some.inj (Option.some.inj (made.symm.trans madeToo))

/-- The resource under the handle of an owner was never released. -/
theorem Sound.not_released (sound : ledger.Sound) (there : ledger.resources handle = some resource)
    (made : ledger.MadeBy resource owner) : ∀ use ∈ ledger.uses, use.releases = true →
      use.resource ≠ some resource := by
  intro use member releases same
  have never := sound.unreleased resource owner made ⟨handle, there⟩
  rw [releasesOf, List.countP_eq_zero] at never
  exact never use member (by simp [releases, same])

/-- What the use records of the resource of its owner. -/
theorem Sound.held_cases (sound : ledger.Sound) (owner : Owner) :
    ledger.held owner = none ∧ (ledger.held owner).bind ledger.resources = none ∨
      ∃ handle resource, ledger.held owner = some handle ∧
        (ledger.held owner).bind ledger.resources = some resource ∧
        ledger.resources handle = some resource ∧ ledger.MadeBy resource owner := by
  cases holds : ledger.held owner with
  | none => exact .inl ⟨rfl, rfl⟩
  | some handle =>
      obtain ⟨resource, there, made⟩ := sound.owned owner handle holds
      exact .inr ⟨handle, resource, rfl, there, there, made⟩

theorem releasesOf_use (releases : Bool) :
    (ledger.use owner releases).releasesOf resource = ledger.releasesOf resource +
      if releases && (ledger.held owner).bind ledger.resources = some resource then 1 else 0 := by
  rw [releasesOf, use, List.countP_append, List.countP_singleton, releasesOf]

theorem Sound.own_use (sound : ledger.Sound) (owner : Owner) (releases : Bool) :
    ∀ use ∈ (ledger.use owner releases).uses, ∀ handle, use.handle = some handle →
      ∃ resource, use.resource = some resource ∧ ledger.MadeBy resource use.owner := by
  intro use member handle holds
  rcases List.mem_append.mp member with before | isLast
  · exact sound.own use before handle holds
  · rw [List.mem_singleton.mp isLast] at holds ⊢
    obtain ⟨resource, there, made⟩ := sound.owned owner handle holds
    refine ⟨resource, ?_, made⟩
    dsimp only at holds ⊢
    rw [holds]
    exact there

theorem Sound.nothing_use (sound : ledger.Sound) (owner : Owner) (releases : Bool) :
    ∀ use ∈ (ledger.use owner releases).uses, use.handle = none → use.resource = none := by
  intro use member holds
  rcases List.mem_append.mp member with before | isLast
  · exact sound.nothing use before holds
  · rw [List.mem_singleton.mp isLast] at holds ⊢
    dsimp only at holds ⊢
    rw [holds]
    rfl

theorem Sound.last_use (sound : ledger.Sound) (owner : Owner) (releases : Bool) :
    (ledger.use owner releases).uses.Pairwise fun earlier later => earlier.releases = true →
      earlier.resource = none ∨ later.resource ≠ earlier.resource := by
  rw [Ledger.use, List.pairwise_append]
  refine ⟨sound.last, List.pairwise_singleton .., ?_⟩
  intro earlier member later isLast released
  rw [List.mem_singleton.mp isLast]
  dsimp only
  rcases sound.held_cases owner with ⟨-, nothing⟩ | ⟨handle, resource, -, isResource, there, made⟩
  · rw [nothing]
    exact (eq_or_ne earlier.resource none).imp id Ne.symm
  · rw [isResource]
    exact .inr (sound.not_released there made earlier member released).symm

theorem Sound.use (sound : ledger.Sound) (owner : Owner) : (ledger.use owner false).Sound where
  owned := sound.owned
  kept := sound.kept
  known := sound.known
  single := sound.single
  own := sound.own_use owner false
  nothing := sound.nothing_use owner false
  unreleased resource maker made there := by
    rw [releasesOf_use]
    simpa using sound.unreleased resource maker made there
  released resource maker made gone := by
    rw [releasesOf_use]
    simpa using sound.released resource maker made gone
  last := sound.last_use owner false

/-! ## Making and releasing -/

theorem Sound.known_use (sound : ledger.Sound) {use : Use Owner Handle} (member : use ∈ ledger.uses)
    (isResource : use.resource = some resource) : resource < ledger.makers.length := by
  cases handle_eq : use.handle with
  | none =>
      rw [sound.nothing use member handle_eq] at isResource
      cases isResource
  | some handle =>
      obtain ⟨second, isSecond, made⟩ := sound.own use member handle handle_eq
      cases isResource.symm.trans isSecond
      exact (List.getElem?_eq_some_iff.mp made).1

theorem madeBy_concat {maker : Option Owner} :
    (ledger.makers ++ [maker])[resource]? = some (some owner) ↔
      ledger.MadeBy resource owner ∨ resource = ledger.makers.length ∧ maker = some owner := by
  rw [MadeBy, List.getElem?_append]
  by_cases old : resource < ledger.makers.length
  · simp [old, Nat.ne_of_lt old]
  · have beyond := List.getElem?_eq_none (Nat.le_of_not_lt old)
    rw [if_neg old, beyond, List.getElem?_singleton]
    by_cases isNew : resource = ledger.makers.length
    · simp [isNew]
    · have positive : resource - ledger.makers.length ≠ 0 := by omega
      simp [isNew, positive]

section Change

variable [DecidableEq Handle]

/-- What is under a handle once a new resource is under a free one. -/
theorem there_update (free : ledger.resources handle = none) {otherHandle : Handle} :
    Function.update ledger.resources handle (some ledger.makers.length) otherHandle =
        some resource ↔
      ledger.resources otherHandle = some resource ∨
        otherHandle = handle ∧ resource = ledger.makers.length := by
  by_cases same : otherHandle = handle
  · subst same
    rw [Function.update_self, free]
    simp [eq_comm]
  · rw [Function.update_of_ne same]
    simp [same]

/-- A new resource, whoever made it. -/
theorem Sound.make (sound : ledger.Sound) (free : ledger.resources handle = none)
    {maker : Option Owner} {held : Owner → Option Handle}
    (holds : ∀ owner otherHandle, held owner = some otherHandle ↔
      ledger.held owner = some otherHandle ∨ maker = some owner ∧ otherHandle = handle) :
    Sound
      { held
        resources := Function.update ledger.resources handle (some ledger.makers.length)
        makers := ledger.makers ++ [maker]
        uses := ledger.uses } := by
  have freshHandle : ∀ owner resource, ledger.MadeBy resource owner →
      ledger.resources handle ≠ some resource := by
    intro _ _ _ there
    rw [free] at there
    cases there
  have gone : ∀ resource, resource ≠ ledger.makers.length →
      (∃ otherHandle, Function.update ledger.resources handle (some ledger.makers.length)
        otherHandle = some resource) → ledger.IsThere resource := by
    rintro resource other ⟨otherHandle, there⟩
    rcases (there_update free).mp there with before | ⟨-, isNew⟩
    · exact ⟨otherHandle, before⟩
    · exact absurd isNew other
  constructor
  · intro owner otherHandle isHeld
    rcases (holds owner otherHandle).mp isHeld with before | ⟨isMaker, rfl⟩
    · obtain ⟨resource, there, made⟩ := sound.owned owner otherHandle before
      exact ⟨resource, (there_update free).mpr (.inl there), madeBy_concat.mpr (.inl made)⟩
    · exact ⟨ledger.makers.length, (there_update free).mpr (.inr ⟨rfl, rfl⟩),
        madeBy_concat.mpr (.inr ⟨rfl, isMaker⟩)⟩
  · intro otherHandle resource owner there made
    apply (holds owner otherHandle).mpr
    rcases (there_update free).mp there with before | ⟨rfl, rfl⟩
    · rcases madeBy_concat.mp made with madeBefore | ⟨rfl, -⟩
      · exact .inl (sound.kept otherHandle resource owner before madeBefore)
      · exact absurd (sound.known otherHandle _ before) (Nat.lt_irrefl _)
    · rcases madeBy_concat.mp made with madeBefore | ⟨-, isMaker⟩
      · exact absurd (List.getElem?_eq_some_iff.mp madeBefore).1 (Nat.lt_irrefl _)
      · exact .inr ⟨isMaker, rfl⟩
  · intro otherHandle resource there
    rw [List.length_append]
    rcases (there_update free).mp there with before | ⟨-, rfl⟩
    · exact Nat.lt_add_right _ (sound.known otherHandle resource before)
    · exact Nat.lt_add_one _
  · intro first second resource there thereToo
    rcases (there_update free).mp there with before | ⟨rfl, rfl⟩
    · rcases (there_update free).mp thereToo with beforeToo | ⟨-, rfl⟩
      · exact sound.single first second resource before beforeToo
      · exact absurd (sound.known first _ before) (Nat.lt_irrefl _)
    · rcases (there_update free).mp thereToo with beforeToo | ⟨rfl, -⟩
      · exact absurd (sound.known second _ beforeToo) (Nat.lt_irrefl _)
      · rfl
  · intro use member otherHandle isHandle
    obtain ⟨resource, isResource, made⟩ := sound.own use member otherHandle isHandle
    exact ⟨resource, isResource, madeBy_concat.mpr (.inl made)⟩
  · exact sound.nothing
  · intro resource owner made there
    by_cases isNew : resource = ledger.makers.length
    · rw [releasesOf, List.countP_eq_zero]
      intro use member released
      simp only [Bool.and_eq_true, decide_eq_true_eq] at released
      exact absurd (sound.known_use member released.2) (isNew ▸ Nat.lt_irrefl _)
    · rcases madeBy_concat.mp made with before | ⟨rfl, -⟩
      · exact sound.unreleased resource owner before (gone resource isNew there)
      · exact absurd rfl isNew
  · intro resource owner made notThere
    rcases madeBy_concat.mp made with before | ⟨rfl, -⟩
    · apply sound.released resource owner before
      rintro ⟨otherHandle, there⟩
      exact notThere ⟨otherHandle, (there_update free).mpr (.inl there)⟩
    · exact absurd ⟨handle, (there_update free).mpr (.inr ⟨rfl, rfl⟩)⟩ notThere
  · exact sound.last

/-- A resource is made where its maker holds none. -/
theorem Sound.acquire [DecidableEq Owner] (sound : ledger.Sound) (idle : ledger.held owner = none)
    (free : ledger.resources handle = none) : (ledger.acquire owner handle).Sound := by
  apply sound.make free
  intro other otherHandle
  by_cases same : other = owner
  · subst same
    rw [Function.update_self, idle]
    simp [eq_comm]
  · rw [Function.update_of_ne same]
    simp [Ne.symm same]

theorem Sound.acquireOutside (sound : ledger.Sound) (free : ledger.resources handle = none) :
    (ledger.acquireOutside handle).Sound := by
  apply sound.make free
  simp

/-- What is under a handle once one is free again. -/
theorem there_free {otherHandle : Handle} :
    Function.update ledger.resources handle none otherHandle = some resource ↔
      otherHandle ≠ handle ∧ ledger.resources otherHandle = some resource := by
  by_cases same : otherHandle = handle
  · subst same
    simp
  · rw [Function.update_of_ne same]
    simp [same]

/-- An owner releases what it holds. -/
theorem Sound.release [DecidableEq Owner] (sound : ledger.Sound)
    (holds : ledger.held owner = some handle) : (ledger.release owner handle).Sound := by
  obtain ⟨freed, there, made⟩ := sound.owned owner handle holds
  have isFreed : (ledger.held owner).bind ledger.resources = some freed := by
    rw [holds]
    exact there
  have heldBy : ∀ other otherHandle,
      Function.update ledger.held owner none other = some otherHandle ↔
        other ≠ owner ∧ ledger.held other = some otherHandle := by
    intro other otherHandle
    by_cases same : other = owner
    · subst same
      simp
    · rw [Function.update_of_ne same]
      simp [same]
  -- the resource is under no other handle, and all others are where they were
  have isThere : ∀ resource, (ledger.release owner handle).IsThere resource ↔
      resource ≠ freed ∧ ledger.IsThere resource := by
    intro resource
    constructor
    · rintro ⟨otherHandle, isUnder⟩
      obtain ⟨different, before⟩ := there_free.mp isUnder
      refine ⟨?_, otherHandle, before⟩
      rintro rfl
      exact different (sound.single otherHandle handle resource before there)
    · rintro ⟨different, otherHandle, before⟩
      refine ⟨otherHandle, there_free.mpr ⟨?_, before⟩⟩
      rintro rfl
      exact different (Option.some.inj (before.symm.trans there))
  have counts : ∀ resource, (ledger.release owner handle).releasesOf resource =
      ledger.releasesOf resource + if freed = resource then 1 else 0 := by
    intro resource
    have counted : (ledger.release owner handle).releasesOf resource = ledger.releasesOf resource +
        if true && (ledger.held owner).bind ledger.resources = some resource then 1 else 0 :=
      releasesOf_use true
    rw [isFreed] at counted
    simpa using counted
  constructor
  · intro other otherHandle isHeld
    obtain ⟨different, before⟩ := (heldBy other otherHandle).mp isHeld
    obtain ⟨resource, isUnder, madeByOther⟩ := sound.owned other otherHandle before
    refine ⟨resource, there_free.mpr ⟨?_, isUnder⟩, madeByOther⟩
    rintro rfl
    exact different (sound.owner_unique before holds)
  · intro otherHandle resource other isUnder madeByOther
    obtain ⟨different, before⟩ := there_free.mp isUnder
    have holdsOther := sound.kept otherHandle resource other before madeByOther
    apply (heldBy other otherHandle).mpr ⟨?_, holdsOther⟩
    rintro rfl
    exact different (Option.some.inj (holdsOther.symm.trans holds))
  · intro otherHandle resource isUnder
    exact sound.known otherHandle resource (there_free.mp isUnder).2
  · intro first second resource isUnder isUnderToo
    exact sound.single first second resource (there_free.mp isUnder).2 (there_free.mp isUnderToo).2
  · exact sound.own_use owner true
  · exact sound.nothing_use owner true
  · intro resource maker madeByMaker isUnder
    obtain ⟨different, before⟩ := (isThere resource).mp isUnder
    rw [counts, sound.unreleased resource maker madeByMaker before, if_neg different.symm]
  · intro resource maker madeByMaker notUnder
    rw [counts]
    by_cases same : freed = resource
    · rw [if_pos same, ← same, sound.unreleased freed owner made ⟨handle, there⟩]
    · have before : ¬ledger.IsThere resource := fun isUnder =>
        notUnder ((isThere resource).mpr ⟨Ne.symm same, isUnder⟩)
      rw [if_neg same, sound.released resource maker madeByMaker before]
  · exact sound.last_use owner true

/-- A resource that no owner made is released from outside. -/
theorem Sound.releaseOutside (sound : ledger.Sound)
    (foreign : ∀ resource owner, ledger.resources handle = some resource →
      ¬ledger.MadeBy resource owner) : (ledger.releaseOutside handle).Sound := by
  constructor
  · intro owner otherHandle holds
    obtain ⟨resource, isUnder, made⟩ := sound.owned owner otherHandle holds
    refine ⟨resource, there_free.mpr ⟨?_, isUnder⟩, made⟩
    rintro rfl
    exact foreign resource owner isUnder made
  · intro otherHandle resource owner isUnder made
    exact sound.kept otherHandle resource owner (there_free.mp isUnder).2 made
  · intro otherHandle resource isUnder
    exact sound.known otherHandle resource (there_free.mp isUnder).2
  · intro first second resource isUnder isUnderToo
    exact sound.single first second resource (there_free.mp isUnder).2 (there_free.mp isUnderToo).2
  · exact sound.own
  · exact sound.nothing
  · rintro resource owner made ⟨otherHandle, isUnder⟩
    exact sound.unreleased resource owner made ⟨otherHandle, (there_free.mp isUnder).2⟩
  · intro resource owner made notUnder
    apply sound.released resource owner made
    rintro ⟨otherHandle, isUnder⟩
    refine notUnder ⟨otherHandle, there_free.mpr ⟨?_, isUnder⟩⟩
    rintro rfl
    exact foreign resource owner isUnder made
  · exact sound.last

end Change

end Ledger

end Library
