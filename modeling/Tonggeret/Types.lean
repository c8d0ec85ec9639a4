import Tonggeret.Text

/-!
# Core metric primitives

The observation record that flows through the pipeline, the messages of the
writer channel and the crate's typed errors.
-/

namespace Tonggeret

/-- An IEEE 754 double, by its bit pattern. -/
structure F64 where
  bits : UInt64
deriving DecidableEq, Repr

/-- `f64::is_finite`: the exponent field is not all ones. -/
def F64.isFinite (x : F64) : Bool := (x.bits >>> 52) &&& 0x7ff != 0x7ff

def F64.zero : F64 := ⟨0⟩

inductive Error
  | alreadyInitialized
  | notInitialized
  | invalidConfig (message : String)
  | storage (message : String)
  | prometheus (message : String)
  | io (message : String)
  | channelClosed
deriving DecidableEq, Repr

inductive MetricType
  | counter
  | gauge
  | histogram
deriving DecidableEq, Repr

def MetricType.asStr : MetricType → String
  | .counter => "counter"
  | .gauge => "gauge"
  | .histogram => "histogram"

def MetricType.fromStr : String → Except Error MetricType
  | "counter" => .ok .counter
  | "gauge" => .ok .gauge
  | "histogram" => .ok .histogram
  | other => .error (.invalidConfig
      ("unknown metric type `" ++ other ++ "`, expected counter|gauge|histogram"))

/-- The accepted identifiers are the canonical ones. -/
theorem MetricType.fromStr_eq_ok {s : String} {metricType : MetricType} :
    MetricType.fromStr s = .ok metricType ↔ s = metricType.asStr := by
  constructor
  · intro h
    unfold MetricType.fromStr at h
    split at h
    · obtain rfl := Except.ok.inj h
      rfl
    · obtain rfl := Except.ok.inj h
      rfl
    · obtain rfl := Except.ok.inj h
      rfl
    · contradiction
  · rintro rfl
    cases metricType <;> rfl

/-- A single metric observation.  `timestamp` is a `SystemTime`, in nanoseconds
from the Unix epoch; clocks before the epoch are negative. -/
structure MetricEntry where
  timestamp : Int
  name : String
  value : F64
  metricType : MetricType
  labels : List (String × String)
deriving DecidableEq, Repr

/-- Internal pipeline message, over the samples it carries. -/
inductive PipelineMsg (ε : Type)
  | metric (entry : ε)
  | shutdown
deriving DecidableEq, Repr

end Tonggeret
