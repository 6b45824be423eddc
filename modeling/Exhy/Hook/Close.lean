import Exhy.Hook.Timeout

/-!
# Closing a descriptor under a parked call

A call of `do_io` is parked on a number, other fibers close the number with the hooked `close`
and open other files under it.  `cancelAll` wakes the call, which makes its system call again
on the bare number unless its timeout has set `cancelled`.
-/

namespace Exhy

open Library IOManager

namespace Closing

/-- Where the `close(fd)` of other fibers is. -/
inductive Stage where
  | idle
  | cancelAll
  | del
  | close_f
  deriving DecidableEq

/-- The files that have had the number are counted; the call is parked on the first.
`touched` are the files on which the call has made its system call since, and `returned` is
what it has returned, with the file of that moment. -/
structure State (Scheduler Fiber Callback Ref : Type) where
  call : TimedCall.State Scheduler Fiber Callback Ref
  file : Option Nat
  opened : Nat
  hasCtx : Bool
  stage : Stage
  touched : List (Option Nat)
  returned : Option (Option Nat × Int)

inductive Label (Scheduler Fiber Callback Ref : Type) where
  | call (label : TimedCall.Label Scheduler Fiber Callback Ref) (rt : Int)
  | get
  | cancelAll (ctl : Bool)
  | del
  | close_f
  | socket_f
  | create
  | operate (op : Op Scheduler Fiber Callback)

variable {Scheduler Fiber Callback Ref : Type} [LinearOrder Ref]

/-- A step of the call that is its system call. -/
def isSyscall : TimedCall.Label Scheduler Fiber Callback Ref → Bool
  | .complete | .again => true
  | _ => false

/-- The kernel answers `EAGAIN`, and epoll takes a descriptor, only where a file is open. -/
def Permits (file : Option Nat) : TimedCall.Label Scheduler Fiber Callback Ref → Prop
  | .again => file.isSome
  | .addEvent ctl => ctl = true → file.isSome
  | _ => True

/-- A step of the call; `rt` is what its system call returns when it completes. -/
def State.step (s : State Scheduler Fiber Callback Ref)
    (label : TimedCall.Label Scheduler Fiber Callback Ref) (rt : Int)
    (next : TimedCall.State Scheduler Fiber Callback Ref) : State Scheduler Fiber Callback Ref :=
  { s with
    call := next
    touched := if isSyscall label then s.file :: s.touched else s.touched
    returned :=
      match next.pc with
      | .done _ => s.returned.or (some (s.file, if isSyscall label then rt else -1))
      | _ => s.returned }

variable [DecidableEq Scheduler] [DecidableEq Fiber] [DecidableEq Callback]

inductive Step (call : TimedCall Scheduler Fiber) : State Scheduler Fiber Callback Ref →
    Label Scheduler Fiber Callback Ref → State Scheduler Fiber Callback Ref → Prop where
  | call {s : State Scheduler Fiber Callback Ref}
      {label : TimedCall.Label Scheduler Fiber Callback Ref} (rt : Int)
      {next : TimedCall.State Scheduler Fiber Callback Ref} : Permits s.file label →
      call.Step s.call label next → Step call s (.call label rt) (s.step label rt next)
  /-- `FdMgr::GetInstance()->get(fd)` in `close`. -/
  | get {s : State Scheduler Fiber Callback Ref} : s.stage = .idle →
      Step call s .get { s with stage := if s.hasCtx then .cancelAll else .close_f }
  | cancelAll {s : State Scheduler Fiber Callback Ref} (ctl : Bool)
      {io : IOManager Scheduler Fiber Callback} {effects : List (Effect Scheduler Fiber Callback)} :
      s.stage = .cancelAll → (Op.cancelAll call.fd ctl).exec s.call.io = .ok (io, effects) →
      Step call s (.cancelAll ctl) { s with call := s.call.perform io effects, stage := .del }
  | del {s : State Scheduler Fiber Callback Ref} : s.stage = .del →
      Step call s .del { s with hasCtx := false, stage := .close_f }
  | close_f {s : State Scheduler Fiber Callback Ref} : s.stage = .close_f →
      Step call s .close_f { s with file := none, stage := .idle }
  /-- `socket_f` or `accept_f` of another fiber returns the number. -/
  | socket_f {s : State Scheduler Fiber Callback Ref} : s.file = none →
      Step call s .socket_f { s with file := some s.opened, opened := s.opened + 1 }
  /-- `FdMgr::GetInstance()->get(fd, true)` after it. -/
  | create {s : State Scheduler Fiber Callback Ref} : s.file.isSome →
      Step call s .create { s with hasCtx := true }
  /-- What the fibers on a later file do, who may wait for the same event. -/
  | operate {s : State Scheduler Fiber Callback Ref} (op : Op Scheduler Fiber Callback)
      {io : IOManager Scheduler Fiber Callback} {effects : List (Effect Scheduler Fiber Callback)} :
      s.file ≠ some 0 → op.Allowed s.call.io → op.exec s.call.io = .ok (io, effects) →
      Step call s (.operate op) { s with call := s.call.perform io effects }

/-- The call is parked on the first file. -/
def Initial (call : TimedCall Scheduler Fiber) (s : State Scheduler Fiber Callback Ref) : Prop :=
  call.interleavings.Reachable s.call ∧ s.call.pc = .parked ∧ s.file = some 0 ∧ s.opened = 1 ∧
    s.hasCtx = true ∧ s.stage = .idle ∧ s.touched = [] ∧ s.returned = none

end Closing

/-- Every interleaving of a parked call with closes of its number and openings under it. -/
def closings {Scheduler Fiber Callback Ref : Type} [LinearOrder Ref] [DecidableEq Scheduler]
    [DecidableEq Fiber] [DecidableEq Callback] (call : TimedCall Scheduler Fiber) :
    System (Closing.State Scheduler Fiber Callback Ref)
      (Closing.Label Scheduler Fiber Callback Ref) where
  initial := Closing.Initial call
  step := Closing.Step call

namespace Closing

variable {Scheduler Fiber Callback Ref : Type} [LinearOrder Ref] [DecidableEq Scheduler]
  [DecidableEq Fiber] [DecidableEq Callback] {call : TimedCall Scheduler Fiber}
  {s next : State Scheduler Fiber Callback Ref}

/-- The condition on a step: the number is not closed while the call is about to repeat its
system call, and a call that is woken after a close finds its timeout fired. -/
def Cancelled (s : State Scheduler Fiber Callback Ref) : Label Scheduler Fiber Callback Ref → Prop
  | .close_f => s.call.pc ≠ .syscall
  | .call .check _ => s.file = some 0 ∨ s.call.cancelled.isSome
  | _ => True

/-- The call keeps away from the files that were opened later. -/
structure Away (s : State Scheduler Fiber Callback Ref) : Prop where
  opened : 0 < s.opened
  notNext : s.file ≠ some 0 → s.call.pc ≠ .syscall
  touched : ∀ file ∈ s.touched, file = some 0
  returned : ∀ file rt, s.returned = some (file, rt) → file = some 0 ∨ rt = -1

theorem syscall_of_isSyscall {s next : TimedCall.State Scheduler Fiber Callback Ref}
    {label : TimedCall.Label Scheduler Fiber Callback Ref} (stepped : call.Step s label next)
    (is : isSyscall label = true) : s.pc = .syscall := by
  cases stepped with
  | complete pc => exact pc
  | again pc => exact pc
  | _ => cases is

/-- A call comes to its system call by the retry alone. -/
theorem retries_of_syscall {s next : TimedCall.State Scheduler Fiber Callback Ref}
    {label : TimedCall.Label Scheduler Fiber Callback Ref} (stepped : call.Step s label next)
    (pc : next.pc = .syscall) : s.pc = .syscall ∨ label = .check ∧ s.cancelled = none := by
  cases stepped with
  | retry _ cancelled _ => exact .inr ⟨rfl, cancelled⟩
  | addEvent ctl _ _ _ =>
      change (if _ then TimedCall.Pc.yield else .unwind) = _ at pc
      split at pc
      · cases pc
      · cases pc
  | tick clock _ => exact .inl pc
  | expire now_ms now_timer _ _ => exact .inl pc
  | test wait _ => exact .inl pc
  | set wait _ => exact .inl pc
  | cancelEvent wait ctl _ _ => exact .inl pc
  | operate op _ _ _ => exact .inl pc
  | take registration _ _ => exact .inl pc
  | timer ref op _ _ _ => exact .inl pc
  | _ => cases pc

theorem Away.takes (away : Away s) {label : TimedCall.Label Scheduler Fiber Callback Ref} {rt : Int}
    (cancelled : Cancelled s (.call label rt))
    {after : TimedCall.State Scheduler Fiber Callback Ref}
    (stepped : call.Step s.call label after) : Away (s.step label rt after) where
  opened := away.opened
  notNext := by
    intro closed pc
    rcases retries_of_syscall stepped pc with syscall | ⟨rfl, notCancelled⟩
    · exact away.notNext closed syscall
    · rcases cancelled with first | isCancelled
      · exact closed first
      · rw [notCancelled] at isCancelled
        cases isCancelled
  touched := by
    intro file member
    rw [State.step] at member
    dsimp only at member
    split at member
    · next isSyscall =>
        rcases List.mem_cons.mp member with rfl | earlier
        · by_contra closed
          exact away.notNext closed (syscall_of_isSyscall stepped isSyscall)
        · exact away.touched file earlier
    · exact away.touched file member
  returned := by
    intro file result is
    rw [State.step] at is
    dsimp only at is
    split at is
    · cases before : s.returned with
      | some earlier =>
          rw [before, Option.some_or] at is
          exact away.returned file result (before.trans is)
      | none =>
          rw [before, Option.none_or] at is
          cases is
          split
          · next isSyscall =>
              left
              by_contra closed
              exact away.notNext closed (syscall_of_isSyscall stepped isSyscall)
          · exact .inr rfl
    · exact away.returned file result is

theorem Away.step {label : Label Scheduler Fiber Callback Ref} (away : Away s)
    (cancelled : Cancelled s label) (stepped : Step call s label next) : Away next := by
  cases stepped with
  | call rt _ stepped => exact away.takes cancelled stepped
  | get _ => exact ⟨away.opened, away.notNext, away.touched, away.returned⟩
  | cancelAll ctl _ _ => exact ⟨away.opened, away.notNext, away.touched, away.returned⟩
  | del _ => exact ⟨away.opened, away.notNext, away.touched, away.returned⟩
  | close_f _ => exact ⟨away.opened, fun _ => cancelled, away.touched, away.returned⟩
  | socket_f free =>
      refine ⟨Nat.succ_pos _, fun _ => away.notNext ?_, away.touched, away.returned⟩
      rw [free]
      nofun
  | create _ => exact ⟨away.opened, away.notNext, away.touched, away.returned⟩
  | operate op _ _ _ => exact ⟨away.opened, away.notNext, away.touched, away.returned⟩

/-- A step outside the condition leaves the call about to make its system call on the number
after the close. -/
theorem syscall_of_not_cancelled {label : Label Scheduler Fiber Callback Ref}
    (retries : call.retries = true) (stepped : Step call s label next)
    (not : ¬ Cancelled s label) : next.file ≠ some 0 ∧ next.call.pc = .syscall := by
  cases stepped with
  | close_f _ => exact ⟨nofun, not_not.mp not⟩
  | @call label rt after permits stepped =>
      cases stepped with
      | timedOut _ isCancelled => exact absurd (.inr isCancelled) not
      | retry _ _ _ => exact ⟨fun first => not (.inl first), rfl⟩
      | finish _ _ once => cases retries.symm.trans once
      | _ => exact absurd trivial not
  | _ => exact absurd trivial not

/-- In the runs in which a call that is woken after a close finds its timeout fired, and is not
about to repeat its system call at the close, the call makes none on the number after the close
and returns -1.  A step outside the condition makes the system call its next step. -/
theorem close_final (retries : call.retries = true)
    (reached : (closings call : System (State Scheduler Fiber Callback Ref) _).Reaches Cancelled s) :
    (∀ file ∈ s.touched, file = some 0) ∧
    (∀ file rt, s.returned = some (file, rt) → file = some 0 ∨ rt = -1) ∧
    ∀ label next, Step call s label next →
      (next.file ≠ some 0 ∧ next.call.pc = .syscall ↔ ¬ Cancelled s label) := by
  have away : Away s := by
    refine reached.invariant Away ?_ fun _ _ _ _ away cancelled stepped => away.step cancelled stepped
    rintro state ⟨_, pc, first, opened, _, _, touched, returned⟩
    constructor
    case opened =>
      rw [opened]
      exact Nat.one_pos
    case notNext => exact fun closed => absurd first closed
    case touched =>
      rw [touched]
      nofun
    case returned =>
      rw [returned]
      nofun
  refine ⟨away.touched, away.returned, fun label next stepped => ⟨?_, ?_⟩⟩
  · intro ⟨closed, pc⟩ cancelled
    exact (away.step cancelled stepped).notNext closed pc
  · exact syscall_of_not_cancelled retries stepped

/-- `read` parked on descriptor 3. -/
def parkedRead : TimedCall.State Unit Unit Unit Nat :=
  match TimedCall.start.io.addEvent TimedCall.readCall.fd .READ none (some ()) () true with
  | .error _ => TimedCall.start
  | .ok (io, _, effects) =>
      TimedCall.State.perform
        { TimedCall.start with
          manager := (TimedCall.start.manager.addTimer 0 1 (some (.timeout 1)) false 0).1
          wait := 1
          timer := some 0
          pc := .parked }
        io effects

theorem parkedRead_reachable : TimedCall.readCall.interleavings.Reachable parkedRead := by
  have again : TimedCall.readCall.interleavings.Reachable _ :=
    .step (.initial TimedCall.start_initial) trivial (.again rfl)
  have armed : TimedCall.readCall.interleavings.Reachable _ :=
    .step again trivial (.addConditionTimer 0 0 rfl (by decide) List.not_mem_nil (by decide))
  have added : TimedCall.readCall.interleavings.Reachable _ :=
    .step armed trivial (.addEvent true rfl (by decide) rfl)
  exact .step added trivial (.yieldToHold rfl)

theorem parkedRead_initial :
    Initial TimedCall.readCall ⟨parkedRead, some 0, 1, true, .idle, [], none⟩ :=
  ⟨parkedRead_reachable, rfl, rfl, rfl, rfl, rfl, rfl, rfl⟩

/-- The timeout fires while the number is closed and opened again, and the call returns -1. -/
theorem close_final_timeout :
    ∃ s : State Unit Unit Unit Nat, s.returned = some (some 1, -1) ∧ s.touched = [] ∧
      ∀ file ∈ s.touched, file = some 0 := by
  have closing : (closings TimedCall.readCall).Reaches Cancelled _ :=
    .step (.initial parkedRead_initial) (by exact trivial) (.get rfl)
  have woken : (closings TimedCall.readCall).Reaches Cancelled _ :=
    .step closing (by exact trivial) (.cancelAll true rfl rfl)
  have deleted : (closings TimedCall.readCall).Reaches Cancelled _ :=
    .step woken (by exact trivial) (.del rfl)
  have closed : (closings TimedCall.readCall).Reaches Cancelled _ :=
    .step deleted (by exact TimedCall.Pc.noConfusion) (.close_f rfl)
  have opened : (closings TimedCall.readCall).Reaches Cancelled _ :=
    .step closed (by exact trivial) (.socket_f rfl)
  have later : (closings TimedCall.readCall).Reaches Cancelled _ :=
    .step opened (by exact trivial) (.call 0 (by exact trivial) (.tick 1 (by decide)))
  have expired : (closings TimedCall.readCall).Reaches Cancelled _ :=
    .step later (by exact trivial) (.call 0 (by exact trivial) (.expire 1 1 (by decide) rfl))
  have tested : (closings TimedCall.readCall).Reaches Cancelled _ :=
    .step expired (by exact trivial)
      (.call 0 (by exact trivial) (.test 1 (List.mem_singleton.mpr rfl)))
  have set : (closings TimedCall.readCall).Reaches Cancelled _ :=
    .step tested (by exact trivial)
      (.call 0 (by exact trivial) (.set 1 (List.mem_singleton.mpr rfl)))
  have resumed : (closings TimedCall.readCall).Reaches Cancelled _ :=
    .step set (by exact trivial)
      (.call 0 (by exact trivial) (.resume ⟨(), .fiber ()⟩ rfl (List.mem_singleton.mpr rfl) rfl))
  have checks : (closings TimedCall.readCall).Reaches Cancelled _ :=
    .step resumed (by exact trivial) (.call 0 (by exact trivial) (.cancelTimer rfl rfl))
  have returned : (closings TimedCall.readCall).Reaches Cancelled _ :=
    .step checks (by exact .inr rfl) (.call 0 (by exact trivial) (.timedOut rfl rfl))
  exact ⟨_, rfl, rfl, (close_final rfl returned).1⟩

/-- The number is closed and opened again, and the woken call reads from the new file. -/
theorem reads_later_file :
    ∃ s : State Unit Unit Unit Nat, (closings TimedCall.readCall).Reachable s ∧
      s.touched = [some 1] ∧ s.returned = some (some 1, 5) := by
  have closing : (closings TimedCall.readCall).Reachable _ :=
    .step (.initial parkedRead_initial) trivial (.get rfl)
  have woken : (closings TimedCall.readCall).Reachable _ :=
    .step closing trivial (.cancelAll true rfl rfl)
  have deleted : (closings TimedCall.readCall).Reachable _ := .step woken trivial (.del rfl)
  have closed : (closings TimedCall.readCall).Reachable _ := .step deleted trivial (.close_f rfl)
  have opened : (closings TimedCall.readCall).Reachable _ := .step closed trivial (.socket_f rfl)
  have created : (closings TimedCall.readCall).Reachable _ := .step opened trivial (.create rfl)
  have resumed : (closings TimedCall.readCall).Reachable _ :=
    .step created trivial
      (.call 0 (by exact trivial) (.resume ⟨(), .fiber ()⟩ rfl (List.mem_singleton.mpr rfl) rfl))
  have checks : (closings TimedCall.readCall).Reachable _ :=
    .step resumed trivial (.call 0 (by exact trivial) (.cancelTimer rfl rfl))
  have retried : (closings TimedCall.readCall).Reachable _ :=
    .step checks trivial (.call 0 (by exact trivial) (.retry rfl rfl rfl))
  have read : (closings TimedCall.readCall).Reachable _ :=
    .step retried trivial (.call 5 (by exact trivial) (.complete rfl))
  exact ⟨_, read, rfl, rfl⟩

end Closing

end Exhy
