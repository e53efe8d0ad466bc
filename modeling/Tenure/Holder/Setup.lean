import Tenure.Client.Config
import Tenure.Holder.Collector
import Tenure.Holder.Filter

/-!
# What the environment asks of the log

The form of the lines, the filter, and a collector that traces are sent to. An address
that is no collector's keeps the program from starting.
-/

namespace Tenure.Holder

/-- How the log is written. -/
structure LogSetup where
  /-- Whether lines are JSON documents. -/
  json : Bool
  filter : Filter
deriving DecidableEq

namespace LogSetup

/-- Whether two texts are the same but for the case of ASCII letters. -/
def sameIgnoringCase (a b : String) : Bool :=
  a.toList.map Char.toLower == b.toList.map Char.toLower

/-- The filter of the environment; one that cannot be read counts as none. -/
def filterOf (env : Environment) : Filter :=
  ((env.get? "RUST_LOG").bind Filter.parse?).getD Filter.standard

/-- The setup of an environment; none if the collector cannot be used. -/
def ofEnvironment? (env : Environment) : Option LogSetup :=
  if (env.get? "OTEL_EXPORTER_OTLP_ENDPOINT").all Collector.isCollector then
    some {
      json := (env.get? "CONSULATE_LOG_FORMAT").any (sameIgnoringCase · "json")
      filter := filterOf env }
  else none

end LogSetup

end Tenure.Holder
