import Exhy.Library.LockOrder

/-!
# What the functions lock

The locks that each function takes, in its order, with what it does under them.  The arguments are
what decides its branches: what is found in a table, whether a call fails, whom a log line reaches.
What the callbacks of users do is not seen, nor what the output streams do, nor failing assertions.
-/

namespace Exhy.Locks

open Library LockOrder

/-- The root of the `LoggerManager`, or another logger. -/
inductive LoggerId where
  | root
  | named (id : Nat)
  deriving DecidableEq, Repr

/-- The mutexes; an `IOManager` is the scheduler and the timer manager of its number. -/
inductive Lock where
  | fdContext (iom fd : Nat)
  | contexts (iom : Nat)
  | scheduler (id : Nat)
  | timers (iom : Nat)
  | fds
  | loggers
  | logger (id : LoggerId)
  | appender (id : Nat)
  | listeners (var : Nat)
  | servlets (dispatch : Nat)
  | pool (pool : Nat)
  deriving DecidableEq, Repr

abbrev Code := List (Action Lock)

/-- `ScopedLockImpl` and `WriteScopedLockImpl` -/
def locked (lock : Lock) (inner : Code) : Code := guarded lock false inner

/-- `ReadScopedLockImpl` -/
def readLocked (lock : Lock) (inner : Code) : Code := guarded lock true inner

/-! ## exhy_log.cpp -/

/-- An appender; `passes` is whether the level reaches its own. -/
structure Appender where
  id : Nat
  isFile : Bool
  passes : Bool

namespace LogAppender

def getFormatter (appender : Nat) : Code := locked (.appender appender) []

/-- `log` of both kinds -/
def log (appender : Appender) : Code :=
  if appender.passes then locked (.appender appender.id) [] else []

def toYamlString (appender : Appender) : Code :=
  if appender.isFile then locked (.appender appender.id) [] else []

/-- `FileLogAppender::reopen()` -/
def reopen (appender : Nat) : Code := locked (.appender appender) []

end LogAppender

/-- What `log` finds in a logger; `passes` is whether the level is above its own. -/
structure Found where
  passes : Bool
  appenders : List Appender

/-- A line that is logged; only a named logger has an `m_root`. -/
structure Line where
  logger : LoggerId
  found : Found
  m_root : Option Found

namespace Logger

/-- `m_root->log(level, event)` -/
def logRoot : Option Found → Code
  | none => []
  | some root =>
      if root.passes then locked (.logger .root) (root.appenders.flatMap LogAppender.log) else []

def log (line : Line) : Code :=
  if line.found.passes then
    locked (.logger line.logger) <|
      if !line.found.appenders.isEmpty then line.found.appenders.flatMap LogAppender.log
      else
        match line.logger with
        | .root => []
        | .named _ => logRoot line.m_root
  else []

def addAppender (logger : LoggerId) (appender : Nat) (hasFormatter : Bool) : Code :=
  locked (.logger logger) <|
    LogAppender.getFormatter appender ++ if hasFormatter then [] else locked (.appender appender) []

/-- `delAppender` and `clearAppenders` -/
def clearAppenders (logger : LoggerId) : Code := locked (.logger logger) []

/-- `setFormatter(val)` of a formatter -/
def setFormatter (logger : LoggerId) (appenders : List Nat) : Code :=
  locked (.logger logger) (appenders.flatMap fun appender => locked (.appender appender) [])

def toYamlString (logger : LoggerId) (appenders : List Appender) : Code :=
  locked (.logger logger) (appenders.flatMap LogAppender.toYamlString)

end Logger

def logs (lines : List Line) : Code := lines.flatMap Logger.log

namespace LoggerManager

def getLogger : Code := locked .loggers []

def toYamlString (loggers : List (LoggerId × List Appender)) : Code :=
  locked .loggers (loggers.flatMap fun entry => Logger.toYamlString entry.1 entry.2)

/-- The listener of `logs`: the lines, the loggers that are defined with their appenders, of which
a file is opened, and the loggers that are defined no more. -/
def onChange (lines : List Line) (defined : List (LoggerId × List (Nat × Bool)))
    (gone : List LoggerId) : Code :=
  logs lines ++
    (defined.flatMap fun entry => getLogger ++ Logger.clearAppenders entry.1 ++
      entry.2.flatMap fun appender =>
        (if appender.2 then LogAppender.reopen appender.1 else []) ++
          Logger.addAppender entry.1 appender.1 false) ++
    gone.flatMap fun logger => getLogger ++ Logger.clearAppenders logger

end LoggerManager

/-! ## exhy_fdmanager.cpp, exhy_config.h, http_servlet.cpp -/

namespace FdManager

/-- `get(fd, auto_create)`, which makes a context or not. -/
def get (creates : Bool) : Code :=
  readLocked .fds [] ++ if creates then locked .fds [] else []

def del : Code := locked .fds []

end FdManager

namespace ConfigVar

/-- `addListener`, `delListener` and `clearListener` -/
def setListener (var : Nat) : Code := locked (.listeners var) []

def getListener (var : Nat) : Code := readLocked (.listeners var) []

end ConfigVar

namespace ServletDispatch

/-- `addServlet`, `addGlobServlet`, `delServlet` and `delGlobServlet` -/
def setServlet (dispatch : Nat) : Code := locked (.servlets dispatch) []

/-- `getServlet`, `getGlobServlet` and `getMatchedServlet` -/
def getServlet (dispatch : Nat) : Code := readLocked (.servlets dispatch) []

end ServletDispatch

/-! ## exhy_scheduler.cpp, exhy_timer.cpp -/

/-- `tickle()`: that of a `Scheduler` logs, and that of an `IOManager` writes to its pipe, through
the hook, or has no idle thread to wake. -/
inductive Tickle where
  | scheduler (lines : List Line)
  | iomanager (hooked : Bool)

/-- A tickle, where one is needed. -/
def tickle : Option Tickle → Code
  | none => []
  | some (.scheduler lines) => logs lines
  | some (.iomanager hooked) => if hooked then FdManager.get false else []

/-- `stopping()`: that of an `IOManager` asks the other one where no timer and no event is left. -/
inductive Stopping where
  | scheduler
  | iomanager (asks : Bool)

def stopping (id : Nat) : Stopping → Code
  | .scheduler => locked (.scheduler id) []
  | .iomanager asks =>
      readLocked (.timers id) [] ++ if asks then locked (.scheduler id) [] else []

namespace Scheduler

/-- `schedule`, of one task and of several -/
def schedule (id : Nat) (tickles : Option Tickle) : Code :=
  locked (.scheduler id) [] ++ tickle tickles

/-- `start()`, under whose lock the threads are made. -/
def start (id : Nat) (lines : List Line) : Code := locked (.scheduler id) (logs lines)

/-- `stop()`: what it does first where the root fiber is through, whether it returns behind that,
the tickles, and what it does with the root fiber, which may be called. -/
def stop (id : Nat) (early : Option (List Line × Stopping)) (returns : Bool)
    (tickles : List Tickle) (root : Option (List Line × Stopping × Bool)) : Code :=
  (match early with
    | none => []
    | some (lines, stops) => logs lines ++ stopping id stops) ++
  if returns then []
  else
    (tickles.flatMap fun needed => tickle (some needed)) ++
      match root with
      | none => []
      | some (lines, stops, calls) =>
          logs lines ++ stopping id stops ++ if calls then [.switch] else []

/-- A round of `run()`: a fiber is swapped in, a new one perhaps, and scheduled again or not; or
the idle fiber has ended. -/
def round (id : Nat) (tickles : Option Tickle) (made : List Line)
    (again : Option (Option Tickle)) : Code :=
  locked (.scheduler id) [] ++ tickle tickles ++ logs made ++ [.switch] ++
    match again with
    | none => []
    | some needed => schedule id needed

end Scheduler

namespace TimerManager

def addTimer (iom : Nat) (tickles : Option Tickle) : Code :=
  locked (.timers iom) [] ++ tickle tickles

/-- `getNextTimer()` and `hasTimer()` -/
def getNextTimer (iom : Nat) : Code := readLocked (.timers iom) []

/-- `listExpiredCb(cbs)`, where there are timers or not. -/
def listExpiredCb (iom : Nat) (some : Bool) : Code :=
  readLocked (.timers iom) [] ++ if some then locked (.timers iom) [] else []

/-- `cancel()` and `refresh()` of a timer -/
def cancel (iom : Nat) : Code := locked (.timers iom) []

/-- `reset(ms, from_now)` of a timer, which may have nothing to do. -/
def reset (iom : Nat) (changes : Bool) (tickles : Option Tickle) : Code :=
  if changes then locked (.timers iom) [] ++ tickle tickles else []

end TimerManager

/-! ## exhy_iomanager.cpp -/

namespace IOManager

/-- The scheduler of an event, and the tickle behind it. -/
structure Trigger where
  scheduler : Nat
  tickles : Option Tickle

/-- `triggerEvent(event)` -/
def triggerEvent (trigger : Trigger) : Code :=
  Scheduler.schedule trigger.scheduler trigger.tickles

def addEvent (iom fd : Nat) (grows : Bool) (lines : List Line) : Code :=
  readLocked (.contexts iom) [] ++ (if grows then locked (.contexts iom) [] else []) ++
    locked (.fdContext iom fd) (logs lines)

/-- `delEvent`, and `cancelEvent` and `cancelAll` with what they trigger. -/
def cancel (iom fd : Nat) (known : Bool) (lines : List Line) (triggers : List Trigger) : Code :=
  readLocked (.contexts iom) [] ++
    if known then locked (.fdContext iom fd) (logs lines ++ triggers.flatMap triggerEvent) else []

/-- An event of `epoll_wait`: the pipe, which is read until it is empty, or a descriptor. -/
inductive Occurred where
  | pipe (reads : Nat)
  | fd (fd : Nat) (lines : List Line) (triggers : List Trigger)

def occurred (iom : Nat) : Occurred → Code
  | .pipe reads => (List.replicate reads (FdManager.get false)).flatten
  | .fd fd lines triggers =>
      locked (.fdContext iom fd) (logs lines ++ triggers.flatMap triggerEvent)

/-- A round of `idle()`. -/
def idle (iom : Nat) (asks timers : Bool) (expired : Option (Option Tickle))
    (events : List Occurred) : Code :=
  stopping iom (.iomanager asks) ++ TimerManager.listExpiredCb iom timers ++
    (match expired with
      | none => []
      | some tickles => Scheduler.schedule iom tickles) ++
    events.flatMap (occurred iom) ++ [.switch]

end IOManager

/-! ## exhy_hook.cpp -/

namespace Hook

/-- A wait for an event: with a timer or not, and where `addEvent` fails what is logged. -/
structure Wait where
  timer : Option (Option Tickle)
  grows : Bool
  lines : List Line
  failed : Option (List Line)

def timed (iom : Nat) (wait : Wait) : Code :=
  match wait.timer with
  | none => []
  | some tickles => TimerManager.addTimer iom tickles

def untimed (iom : Nat) (wait : Wait) : Code :=
  match wait.timer with
  | none => []
  | some _ => TimerManager.cancel iom

/-- The body of `do_io` behind `EAGAIN` -/
def wait (iom fd : Nat) (wait : Wait) : Code :=
  timed iom wait ++ IOManager.addEvent iom fd wait.grows wait.lines ++
    (match wait.failed with
      | none => [.switch]
      | some lines => logs lines) ++
    untimed iom wait

/-- `do_io`, with the waits between its calls. -/
def do_io (hook : Bool) (iom fd : Nat) (waits : List Wait) : Code :=
  if hook then FdManager.get false ++ waits.flatMap (wait iom fd) else []

/-- `connect_with_timeout` and, with its line, `connect` -/
def connect_with_timeout (hook : Bool) (iom fd : Nat) (line : List Line) (waits : Option Wait) :
    Code :=
  logs line ++
    if hook then
      FdManager.get false ++
        match waits with
        | none => []
        | some wait =>
            timed iom wait ++ IOManager.addEvent iom fd wait.grows wait.lines ++
              match wait.failed with
              | none => [.switch] ++ untimed iom wait
              | some lines => untimed iom wait ++ logs lines
    else []

/-- `sleep` and `usleep` -/
def sleep (hook : Bool) (iom : Nat) (tickles : Option Tickle) : Code :=
  if hook then TimerManager.addTimer iom tickles ++ [.switch] else []

def socket (hook opened creates : Bool) : Code :=
  if hook && opened then FdManager.get creates else []

def accept (hook : Bool) (iom fd : Nat) (waits : List Wait) (accepted creates : Bool) : Code :=
  do_io hook iom fd waits ++ if accepted then FdManager.get creates else []

/-- What `close` cancels: the arguments of `cancelAll`. -/
structure Closing where
  iom : Nat
  fd : Nat
  known : Bool
  lines : List Line
  triggers : List IOManager.Trigger

/-- `close(fd)`, where there is a context or not, and an `IOManager` or not. -/
def close (hook : Bool) (context : Option (Option Closing)) : Code :=
  if hook then
    FdManager.get false ++
      match context with
      | none => []
      | some cancels =>
          (match cancels with
            | none => []
            | some closing => IOManager.cancel closing.iom closing.fd closing.known closing.lines
                closing.triggers) ++ FdManager.del
  else []

/-- `fcntl`, `ioctl` and `setsockopt`, where they look for the context or not. -/
def options (looks : Bool) : Code := if looks then FdManager.get false else []

end Hook

/-! ## http_connection.cpp -/

namespace HttpConnectionPool

/-- `delete` of a connection: its line and its `close`. -/
def delete (lines : List Line) (hook : Bool) (context : Option (Option Hook.Closing)) : Code :=
  logs lines ++ Hook.close hook context

/-- `getConnection()` up to the connections that it deletes; the new one is a `socket` and a
`connect`. -/
def getConnection (pool : Nat)
    (deleted : List (List Line × Bool × Option (Option Hook.Closing))) : Code :=
  locked (.pool pool) [] ++ deleted.flatMap fun entry => delete entry.1 entry.2.1 entry.2.2

/-- `ReleasePtr(ptr, pool)`, which deletes the connection or keeps it. -/
def ReleasePtr (pool : Nat)
    (deleted : Option (List Line × Bool × Option (Option Hook.Closing))) : Code :=
  match deleted with
  | none => locked (.pool pool) []
  | some entry => delete entry.1 entry.2.1 entry.2.2

end HttpConnectionPool

end Exhy.Locks
