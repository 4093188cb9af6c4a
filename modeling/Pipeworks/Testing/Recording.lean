import Pipeworks.Cell
import Pipeworks.Metrics.Log
import Pipeworks.Metrics.Report
import Pipeworks.Run.Executor
/-!
# Sleepers and sinks that keep records
-/

namespace Pipeworks

/-- Keeps every delay and does not wait. -/
def Sleeper.recording {ω : Type} (delays : Cell ω (Trail Nanos)) : Sleeper ω :=
  fun d w => (.ok (), delays.append d w)

/-- Keeps every delay, and answers the call number `n` with an error if `fault n` is one. -/
def Sleeper.faulty {ω : Type} (delays : Cell ω (Trail Nanos)) (fault : Nat → Option EngineError) :
    Sleeper ω :=
  fun d w =>
    ((fault (delays.get w).size).elim (.ok ()) .error, delays.append d w)

/-- Keeps every event. -/
def Sink.collecting {ω : Type} (events : Cell ω (Trail (RunHeader × Event))) : Sink ω :=
  fun header event => events.append (header, event)

/-- What is written to a log: lines for events, and reports. -/
inductive LogEntry where
  | line (l : LogLine)
  | report (r : Report)

/-- Writes a line for every event. -/
def Sink.logging {ω : Type} (level : LogLevel) (log : Cell ω (Trail LogEntry)) : Sink ω :=
  fun header event => log.append (.line (.ofEvent level header event))

end Pipeworks
