import Exhy.Thread.Locks

/-!
# The locks are taken in one order

Whatever functions the fibers of any number of threads call, none is switched out while it holds a
lock, and a thread that waits for a lock does so for one that can go on.
-/

namespace Exhy.Locks

open Library LockOrder

/-- What is locked under the locks of lower ranks only. -/
def rank : Lock → Nat
  | .fdContext _ _ => 0
  | .scheduler _ => 1
  | .loggers => 2
  | .logger (.named _) => 3
  | .logger .root => 4
  | .appender _ => 5
  | .contexts _ => 6
  | .timers _ => 6
  | .fds => 6
  | .listeners _ => 6
  | .servlets _ => 6
  | .pool _ => 6

theorem rank_lt (lock : Lock) : rank lock < 7 := by
  cases lock with
  | logger id => cases id <;> simp [rank]
  | _ => simp [rank]

/-! ## Parts -/

section Parts

variable {floor : Nat} {first second inner : Code} {lock : Lock}

theorem nests_locked (above : floor ≤ rank lock) (nests : Nests rank (rank lock + 1) inner) :
    Nests rank floor (locked lock inner) :=
  nests_guarded above nests

theorem nests_readLocked (above : floor ≤ rank lock) :
    Nests rank floor (readLocked lock []) :=
  nests_guarded above nests_nil

theorem nests_ite {condition : Prop} [Decidable condition] (yes : Nests rank floor first)
    (no : Nests rank floor second) : Nests rank floor (if condition then first else second) := by
  split
  · exact yes
  · exact no

/-- A leaf: nothing is locked under it. -/
theorem nests_leaf (above : floor ≤ rank lock) : Nests rank floor (locked lock []) :=
  nests_locked above nests_nil

end Parts

/-! ## Logs -/

theorem nests_appender (appender : Appender) : Nests rank 5 (LogAppender.log appender) :=
  nests_ite (nests_leaf (Nat.le_refl 5)) nests_nil

theorem nests_logRoot (root : Option Found) : Nests rank 4 (Logger.logRoot root) := by
  cases root with
  | none => exact nests_nil
  | some root =>
      apply nests_ite
      · apply nests_locked (Nat.le_refl 4)
        exact nests_flatMap fun appender _ => nests_appender appender
      · exact nests_nil

theorem nests_log (line : Line) : Nests rank 3 (Logger.log line) := by
  obtain ⟨logger, found, m_root⟩ := line
  have appenders : Nests rank 5 (found.appenders.flatMap LogAppender.log) :=
    nests_flatMap fun appender _ => nests_appender appender
  apply nests_ite
  · cases logger with
    | root =>
        apply nests_locked (Nat.le_succ 3)
        exact nests_ite appenders nests_nil
    | named id =>
        apply nests_locked (Nat.le_refl 3)
        exact nests_ite (appenders.mono (Nat.le_succ 4)) (nests_logRoot m_root)
  · exact nests_nil

theorem nests_logs (lines : List Line) : Nests rank 3 (logs lines) :=
  nests_flatMap fun line _ => nests_log line

/-- A logger, and what only locks appenders under it. -/
theorem nests_logger (logger : LoggerId) {inner : Code} (nests : Nests rank 5 inner) :
    Nests rank 3 (locked (.logger logger) inner) := by
  cases logger with
  | root => exact nests_locked (Nat.le_succ 3) nests
  | named id => exact nests_locked (Nat.le_refl 3) (nests.mono (Nat.le_succ 4))

theorem nests_addAppender (logger : LoggerId) (appender : Nat) (hasFormatter : Bool) :
    Nests rank 3 (Logger.addAppender logger appender hasFormatter) := by
  apply nests_logger
  apply Nests.append
  · exact nests_leaf (Nat.le_refl 5)
  · exact nests_ite nests_nil (nests_leaf (Nat.le_refl 5))

theorem nests_clearAppenders (logger : LoggerId) : Nests rank 3 (Logger.clearAppenders logger) :=
  nests_logger logger nests_nil

theorem nests_setFormatter (logger : LoggerId) (appenders : List Nat) :
    Nests rank 3 (Logger.setFormatter logger appenders) := by
  apply nests_logger
  exact nests_flatMap fun appender _ => nests_leaf (Nat.le_refl 5)

theorem nests_toYamlString (logger : LoggerId) (appenders : List Appender) :
    Nests rank 3 (Logger.toYamlString logger appenders) := by
  apply nests_logger
  exact nests_flatMap fun appender _ => nests_ite (nests_leaf (Nat.le_refl 5)) nests_nil

theorem nests_getLogger : Nests rank 2 LoggerManager.getLogger := nests_leaf (Nat.le_refl 2)

theorem nests_manager (loggers : List (LoggerId × List Appender)) :
    Nests rank 2 (LoggerManager.toYamlString loggers) := by
  apply nests_locked (Nat.le_refl 2)
  exact nests_flatMap fun entry _ => nests_toYamlString entry.1 entry.2

theorem nests_onChange (lines : List Line) (defined : List (LoggerId × List (Nat × Bool)))
    (gone : List LoggerId) : Nests rank 2 (LoggerManager.onChange lines defined gone) := by
  have cleared : ∀ logger, Nests rank 2 (LoggerManager.getLogger ++ Logger.clearAppenders logger) :=
    fun logger => nests_getLogger.append ((nests_clearAppenders logger).mono (Nat.le_succ 2))
  apply Nests.append
  · apply Nests.append
    · exact (nests_logs lines).mono (Nat.le_succ 2)
    · apply nests_flatMap
      intro entry _
      apply (cleared entry.1).append
      apply nests_flatMap
      intro appender _
      apply Nests.append
      · exact nests_ite (nests_leaf (by simp [rank])) nests_nil
      · exact (nests_addAppender entry.1 appender.1 false).mono (Nat.le_succ 2)
  · exact nests_flatMap fun logger _ => cleared logger

/-! ## Schedulers and timers -/

theorem nests_get (creates : Bool) : Nests rank 6 (FdManager.get creates) :=
  (nests_readLocked (Nat.le_refl 6)).append (nests_ite (nests_leaf (Nat.le_refl 6)) nests_nil)

theorem nests_tickle (needed : Option Tickle) : Nests rank 3 (tickle needed) := by
  cases needed with
  | none => exact nests_nil
  | some needed =>
      cases needed with
      | scheduler lines => exact nests_logs lines
      | iomanager hooked => exact nests_ite ((nests_get false).mono (by simp)) nests_nil

theorem nests_stopping (id : Nat) (stops : Stopping) : Nests rank 1 (stopping id stops) := by
  cases stops with
  | scheduler => exact nests_leaf (Nat.le_refl 1)
  | iomanager asks =>
      apply Nests.append
      · exact nests_readLocked (by simp [rank])
      · exact nests_ite (nests_leaf (Nat.le_refl 1)) nests_nil

theorem nests_schedule (id : Nat) (tickles : Option Tickle) :
    Nests rank 1 (Scheduler.schedule id tickles) :=
  (nests_leaf (Nat.le_refl 1)).append ((nests_tickle tickles).mono (by simp))

theorem nests_start (id : Nat) (lines : List Line) : Nests rank 1 (Scheduler.start id lines) :=
  nests_locked (Nat.le_refl 1) ((nests_logs lines).mono (Nat.le_succ 2))

theorem nests_logs_zero (lines : List Line) : Nests rank 0 (logs lines) :=
  (nests_logs lines).mono (Nat.zero_le 3)

theorem nests_tickle_zero (needed : Option Tickle) : Nests rank 0 (tickle needed) :=
  (nests_tickle needed).mono (Nat.zero_le 3)

theorem nests_stop (id : Nat) (early : Option (List Line × Stopping)) (returns : Bool)
    (tickles : List Tickle) (root : Option (List Line × Stopping × Bool)) :
    Nests rank 0 (Scheduler.stop id early returns tickles root) := by
  have asks : ∀ lines stops, Nests rank 0 (logs lines ++ stopping id stops) :=
    fun lines stops => (nests_logs_zero lines).append
      ((nests_stopping id stops).mono (Nat.zero_le 1))
  apply Nests.append
  · cases early with
    | none => exact nests_nil
    | some early => exact asks early.1 early.2
  · apply nests_ite nests_nil
    apply Nests.append
    · exact nests_flatMap fun needed _ => nests_tickle_zero (some needed)
    · cases root with
      | none => exact nests_nil
      | some root => exact (asks root.1 root.2.1).append (nests_ite nests_switch nests_nil)

theorem nests_round (id : Nat) (tickles : Option Tickle) (made : List Line)
    (again : Option (Option Tickle)) :
    Nests rank 0 (Scheduler.round id tickles made again) := by
  apply Nests.append
  · apply Nests.append
    · apply Nests.append
      · exact (nests_leaf (Nat.zero_le _)).append (nests_tickle_zero tickles)
      · exact nests_logs_zero made
    · exact nests_switch
  · cases again with
    | none => exact nests_nil
    | some needed => exact (nests_schedule id needed).mono (Nat.zero_le 1)

theorem nests_addTimer (iom : Nat) (tickles : Option Tickle) :
    Nests rank 0 (TimerManager.addTimer iom tickles) :=
  (nests_leaf (Nat.zero_le _)).append (nests_tickle_zero tickles)

theorem nests_listExpiredCb (iom : Nat) (some : Bool) :
    Nests rank 0 (TimerManager.listExpiredCb iom some) :=
  (nests_readLocked (Nat.zero_le _)).append (nests_ite (nests_leaf (Nat.zero_le _)) nests_nil)

/-! ## Events -/

theorem nests_addEvent (iom fd : Nat) (grows : Bool) (lines : List Line) :
    Nests rank 0 (IOManager.addEvent iom fd grows lines) := by
  apply Nests.append
  · exact (nests_readLocked (Nat.zero_le _)).append
      (nests_ite (nests_leaf (Nat.zero_le _)) nests_nil)
  · exact nests_locked (Nat.le_refl 0) ((nests_logs lines).mono (by simp [rank]))

/-- The context of a descriptor, under which its events are triggered. -/
theorem nests_triggers (iom fd : Nat) (lines : List Line) (triggers : List IOManager.Trigger) :
    Nests rank 0 (locked (.fdContext iom fd)
      (logs lines ++ triggers.flatMap IOManager.triggerEvent)) := by
  apply nests_locked (Nat.le_refl 0)
  apply Nests.append
  · exact (nests_logs lines).mono (by simp [rank])
  · exact nests_flatMap fun trigger _ => nests_schedule trigger.scheduler trigger.tickles

theorem nests_cancel (iom fd : Nat) (known : Bool) (lines : List Line)
    (triggers : List IOManager.Trigger) :
    Nests rank 0 (IOManager.cancel iom fd known lines triggers) :=
  (nests_readLocked (Nat.zero_le _)).append
    (nests_ite (nests_triggers iom fd lines triggers) nests_nil)

theorem nests_get_zero (creates : Bool) : Nests rank 0 (FdManager.get creates) :=
  (nests_get creates).mono (Nat.zero_le 6)

theorem nests_idle (iom : Nat) (asks timers : Bool) (expired : Option (Option Tickle))
    (events : List IOManager.Occurred) :
    Nests rank 0 (IOManager.idle iom asks timers expired events) := by
  apply Nests.append
  · apply Nests.append
    · apply Nests.append
      · exact ((nests_stopping iom _).mono (Nat.zero_le 1)).append (nests_listExpiredCb iom timers)
      · cases expired with
        | none => exact nests_nil
        | some tickles => exact (nests_schedule iom tickles).mono (Nat.zero_le 1)
    · apply nests_flatMap
      intro event _
      cases event with
      | pipe reads =>
          rw [IOManager.occurred, ← List.flatMap_id]
          apply nests_flatMap
          intro code member
          rw [List.eq_of_mem_replicate member]
          exact nests_get_zero false
      | fd fd lines triggers => exact nests_triggers iom fd lines triggers
  · exact nests_switch

/-! ## Hooks -/

theorem nests_timed (iom : Nat) (wait : Hook.Wait) : Nests rank 0 (Hook.timed iom wait) := by
  rw [Hook.timed]
  cases wait.timer with
  | none => exact nests_nil
  | some tickles => exact nests_addTimer iom tickles

theorem nests_untimed (iom : Nat) (wait : Hook.Wait) : Nests rank 0 (Hook.untimed iom wait) := by
  rw [Hook.untimed]
  cases wait.timer with
  | none => exact nests_nil
  | some tickles => exact nests_leaf (Nat.zero_le _)

theorem nests_wait (iom fd : Nat) (wait : Hook.Wait) : Nests rank 0 (Hook.wait iom fd wait) := by
  apply Nests.append
  · apply Nests.append
    · exact (nests_timed iom wait).append (nests_addEvent iom fd wait.grows wait.lines)
    · cases wait.failed with
      | none => exact nests_switch
      | some lines => exact nests_logs_zero lines
  · exact nests_untimed iom wait

theorem nests_do_io (hook : Bool) (iom fd : Nat) (waits : List Hook.Wait) :
    Nests rank 0 (Hook.do_io hook iom fd waits) := by
  apply nests_ite
  · exact (nests_get_zero false).append (nests_flatMap fun wait _ => nests_wait iom fd wait)
  · exact nests_nil

theorem nests_connect (hook : Bool) (iom fd : Nat) (line : List Line) (waits : Option Hook.Wait) :
    Nests rank 0 (Hook.connect_with_timeout hook iom fd line waits) := by
  apply (nests_logs_zero line).append
  apply nests_ite
  · apply (nests_get_zero false).append
    cases waits with
    | none => exact nests_nil
    | some wait =>
        apply Nests.append
        · exact (nests_timed iom wait).append (nests_addEvent iom fd wait.grows wait.lines)
        · cases wait.failed with
          | none => exact nests_switch.append (nests_untimed iom wait)
          | some lines => exact (nests_untimed iom wait).append (nests_logs_zero lines)
  · exact nests_nil

theorem nests_close (hook : Bool) (context : Option (Option Hook.Closing)) :
    Nests rank 0 (Hook.close hook context) := by
  apply nests_ite
  · apply (nests_get_zero false).append
    cases context with
    | none => exact nests_nil
    | some cancels =>
        apply Nests.append
        · cases cancels with
          | none => exact nests_nil
          | some closing =>
              exact nests_cancel closing.iom closing.fd closing.known closing.lines closing.triggers
        · exact nests_leaf (Nat.zero_le _)
  · exact nests_nil

theorem nests_delete (lines : List Line) (hook : Bool) (context : Option (Option Hook.Closing)) :
    Nests rank 0 (HttpConnectionPool.delete lines hook context) :=
  (nests_logs_zero lines).append (nests_close hook context)

/-! ## Every call -/

/-- The functions that lock. -/
inductive Call where
  | log (line : Line)
  | addAppender (logger : LoggerId) (appender : Nat) (hasFormatter : Bool)
  | clearAppenders (logger : LoggerId)
  | setFormatter (logger : LoggerId) (appenders : List Nat)
  | loggerToYaml (logger : LoggerId) (appenders : List Appender)
  | getLogger
  | managerToYaml (loggers : List (LoggerId × List Appender))
  | onChange (lines : List Line) (defined : List (LoggerId × List (Nat × Bool)))
      (gone : List LoggerId)
  | reopen (appender : Nat)
  | setListener (var : Nat)
  | getListener (var : Nat)
  | setServlet (dispatch : Nat)
  | getServlet (dispatch : Nat)
  | schedule (id : Nat) (tickles : Option Tickle)
  | start (id : Nat) (lines : List Line)
  | stop (id : Nat) (early : Option (List Line × Stopping)) (returns : Bool)
      (tickles : List Tickle) (root : Option (List Line × Stopping × Bool))
  | round (id : Nat) (tickles : Option Tickle) (made : List Line) (again : Option (Option Tickle))
  | addTimer (iom : Nat) (tickles : Option Tickle)
  | cancelTimer (iom : Nat)
  | resetTimer (iom : Nat) (changes : Bool) (tickles : Option Tickle)
  | getNextTimer (iom : Nat)
  | addEvent (iom fd : Nat) (grows : Bool) (lines : List Line)
  | cancelEvent (iom fd : Nat) (known : Bool) (lines : List Line)
      (triggers : List IOManager.Trigger)
  | idle (iom : Nat) (asks timers : Bool) (expired : Option (Option Tickle))
      (events : List IOManager.Occurred)
  | do_io (hook : Bool) (iom fd : Nat) (waits : List Hook.Wait)
  | connect (hook : Bool) (iom fd : Nat) (line : List Line) (waits : Option Hook.Wait)
  | sleep (hook : Bool) (iom : Nat) (tickles : Option Tickle)
  | socket (hook opened creates : Bool)
  | accept (hook : Bool) (iom fd : Nat) (waits : List Hook.Wait) (accepted creates : Bool)
  | close (hook : Bool) (context : Option (Option Hook.Closing))
  | options (looks : Bool)
  | getConnection (pool : Nat)
      (deleted : List (List Line × Bool × Option (Option Hook.Closing)))
  | ReleasePtr (pool : Nat)
      (deleted : Option (List Line × Bool × Option (Option Hook.Closing)))
  | yield

def Call.code : Call → Code
  | .log line => Logger.log line
  | .addAppender logger appender hasFormatter => Logger.addAppender logger appender hasFormatter
  | .clearAppenders logger => Logger.clearAppenders logger
  | .setFormatter logger appenders => Logger.setFormatter logger appenders
  | .loggerToYaml logger appenders => Logger.toYamlString logger appenders
  | .getLogger => LoggerManager.getLogger
  | .managerToYaml loggers => LoggerManager.toYamlString loggers
  | .onChange lines defined gone => LoggerManager.onChange lines defined gone
  | .reopen appender => LogAppender.reopen appender
  | .setListener var => ConfigVar.setListener var
  | .getListener var => ConfigVar.getListener var
  | .setServlet dispatch => ServletDispatch.setServlet dispatch
  | .getServlet dispatch => ServletDispatch.getServlet dispatch
  | .schedule id tickles => Scheduler.schedule id tickles
  | .start id lines => Scheduler.start id lines
  | .stop id early returns tickles root => Scheduler.stop id early returns tickles root
  | .round id tickles made again => Scheduler.round id tickles made again
  | .addTimer iom tickles => TimerManager.addTimer iom tickles
  | .cancelTimer iom => TimerManager.cancel iom
  | .resetTimer iom changes tickles => TimerManager.reset iom changes tickles
  | .getNextTimer iom => TimerManager.getNextTimer iom
  | .addEvent iom fd grows lines => IOManager.addEvent iom fd grows lines
  | .cancelEvent iom fd known lines triggers => IOManager.cancel iom fd known lines triggers
  | .idle iom asks timers expired events => IOManager.idle iom asks timers expired events
  | .do_io hook iom fd waits => Hook.do_io hook iom fd waits
  | .connect hook iom fd line waits => Hook.connect_with_timeout hook iom fd line waits
  | .sleep hook iom tickles => Hook.sleep hook iom tickles
  | .socket hook opened creates => Hook.socket hook opened creates
  | .accept hook iom fd waits accepted creates => Hook.accept hook iom fd waits accepted creates
  | .close hook context => Hook.close hook context
  | .options looks => Hook.options looks
  | .getConnection pool deleted => HttpConnectionPool.getConnection pool deleted
  | .ReleasePtr pool deleted => HttpConnectionPool.ReleasePtr pool deleted
  | .yield => [.switch]

theorem Call.nests (call : Call) : Nests rank 0 call.code := by
  cases call with
  | log line => exact (nests_log line).mono (Nat.zero_le 3)
  | addAppender logger appender hasFormatter =>
      exact (nests_addAppender logger appender hasFormatter).mono (Nat.zero_le 3)
  | clearAppenders logger => exact (nests_clearAppenders logger).mono (Nat.zero_le 3)
  | setFormatter logger appenders =>
      exact (nests_setFormatter logger appenders).mono (Nat.zero_le 3)
  | loggerToYaml logger appenders =>
      exact (nests_toYamlString logger appenders).mono (Nat.zero_le 3)
  | getLogger => exact nests_getLogger.mono (Nat.zero_le 2)
  | managerToYaml loggers => exact (nests_manager loggers).mono (Nat.zero_le 2)
  | onChange lines defined gone => exact (nests_onChange lines defined gone).mono (Nat.zero_le 2)
  | reopen appender => exact nests_leaf (Nat.zero_le _)
  | setListener var => exact nests_leaf (Nat.zero_le _)
  | getListener var => exact nests_readLocked (Nat.zero_le _)
  | setServlet dispatch => exact nests_leaf (Nat.zero_le _)
  | getServlet dispatch => exact nests_readLocked (Nat.zero_le _)
  | schedule id tickles => exact (nests_schedule id tickles).mono (Nat.zero_le 1)
  | start id lines => exact (nests_start id lines).mono (Nat.zero_le 1)
  | stop id early returns tickles root => exact nests_stop id early returns tickles root
  | round id tickles made again => exact nests_round id tickles made again
  | addTimer iom tickles => exact nests_addTimer iom tickles
  | cancelTimer iom => exact nests_leaf (Nat.zero_le _)
  | resetTimer iom changes tickles => exact nests_ite (nests_addTimer iom tickles) nests_nil
  | getNextTimer iom => exact nests_readLocked (Nat.zero_le _)
  | addEvent iom fd grows lines => exact nests_addEvent iom fd grows lines
  | cancelEvent iom fd known lines triggers => exact nests_cancel iom fd known lines triggers
  | idle iom asks timers expired events => exact nests_idle iom asks timers expired events
  | do_io hook iom fd waits => exact nests_do_io hook iom fd waits
  | connect hook iom fd line waits => exact nests_connect hook iom fd line waits
  | sleep hook iom tickles =>
      exact nests_ite ((nests_addTimer iom tickles).append nests_switch) nests_nil
  | socket hook opened creates => exact nests_ite (nests_get_zero creates) nests_nil
  | accept hook iom fd waits accepted creates =>
      apply (nests_do_io hook iom fd waits).append
      exact nests_ite (nests_get_zero creates) nests_nil
  | close hook context => exact nests_close hook context
  | options looks => exact nests_ite (nests_get_zero false) nests_nil
  | getConnection pool deleted =>
      apply Nests.append
      · exact nests_leaf (Nat.zero_le _)
      · exact nests_flatMap fun entry _ => nests_delete entry.1 entry.2.1 entry.2.2
  | ReleasePtr pool deleted =>
      cases deleted with
      | none => exact nests_leaf (Nat.zero_le _)
      | some entry => exact nests_delete entry.1 entry.2.1 entry.2.2
  | yield => exact nests_switch

/-- Every interleaving of fibers that call the functions. -/
def fibers {Fiber Thread : Type} [DecidableEq Fiber] [DecidableEq Thread]
    (calls : Fiber → List Call) : System (State Lock Fiber Thread) Thread :=
  LockOrder.system fun fiber => (calls fiber).flatMap Call.code

/-- A fiber that holds a lock is on a thread, a mutex or a write lock is held by one fiber, and
each thread that runs a fiber can go on, or waits, through others perhaps, for one that can. -/
theorem never_deadlocks {Fiber Thread : Type} [DecidableEq Fiber] [DecidableEq Thread]
    {calls : Fiber → List Call} {state : State Lock Fiber Thread}
    (reached : (fibers calls).Reachable state) :
    (∀ fiber, (state.tasks fiber).held ≠ [] → ∃ thread, state.running thread = some fiber) ∧
      (∀ fiber other lock shared, (lock, false) ∈ (state.tasks fiber).held →
        (lock, shared) ∈ (state.tasks other).held → fiber = other) ∧
      ∀ thread fiber, state.running thread = some fiber →
        ∃ last, Relation.ReflTransGen state.WaitsFor thread last ∧
          ∃ next, (fibers calls).step state last next := by
  have nests : ∀ fiber, Nests rank 0 ((calls fiber).flatMap Call.code) :=
    fun fiber => nests_flatMap fun call _ => call.nests
  have inv : Inv rank state := Inv.of_reachable nests reached
  refine ⟨inv.paused, inv.mutex, ?_⟩
  intro thread fiber runs
  exact inv.moves rank_lt runs

/-- Two fibers that look for a logger. -/
def twoFibers : System (State Lock Bool Bool) Bool := fibers fun _ => [.getLogger]

/-- One waits for the other. -/
theorem never_deadlocks_loggers : ∃ state, twoFibers.Reachable state ∧
    state.WaitsFor false true ∧ ∃ last, Relation.ReflTransGen state.WaitsFor false last ∧
      ∃ next, twoFibers.step state last next := by
  have start : twoFibers.Reachable _ := .initial rfl
  have resumed : twoFibers.Reachable _ := start.step trivial
    (Step.resume true rfl (fun _ runs => by cases runs) (List.cons_ne_nil _ _) : Step _ true _)
  have acquired : twoFibers.Reachable _ := resumed.step trivial
    (Step.acquire rfl rfl (fun _ _ member => by cases member) : Step _ true _)
  have waiting : twoFibers.Reachable _ := acquired.step trivial
    (Step.resume false rfl (fun other runs => by cases other <;> cases runs)
      (List.cons_ne_nil _ _) : Step _ false _)
  exact ⟨_, waiting, ⟨false, rfl, true, rfl, .loggers, false, _, rfl, false, List.mem_cons_self⟩,
    (never_deadlocks waiting).2.2 false false rfl⟩

end Exhy.Locks
