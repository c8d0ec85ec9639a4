import Mathlib.Data.String.Basic
import Tonggeret.Lib.SortedMap
import Tonggeret.Types

/-!
# Value payloads

`{"value": f64, "metric_type": "counter|gauge|histogram", "labels": {k: v}}`,
written by the ingestion side and read back, with silent defaults, by the
exporter.  Parsing and printing belong to `serde_json` and stay a parameter.
-/

namespace Tonggeret.Storage

open Tonggeret.Lib

inductive JsonNumber
  | posInt (n : UInt64)
  | negInt (n : Int)
  | float (x : F64)
deriving DecidableEq

/-- `serde_json::Value`; an object lists its members in map order. -/
inductive Json
  | null
  | bool (b : Bool)
  | number (n : JsonNumber)
  | string (s : String)
  | array (items : List Json)
  | object (members : List (String × Json))

/-- What the crate uses of `serde_json`. -/
structure SerdeJson where
  fromSlice : Bytes → Option Json
  toString : Json → String
  asF64 : JsonNumber → Option F64

/-- `Value::get(key)`. -/
def Json.get (key : String) : Json → Option Json
  | .object members => members.lookup key
  | _ => none

/-- `Value::as_str`. -/
def Json.asStr : Json → Option String
  | .string s => some s
  | _ => none

/-- Members collected into a `serde_json::Map`: sorted, the last value of a key kept. -/
def jsonObject (members : List (String × Json)) : Json :=
  .object (SortedMap.empty.insertAll members).entries

/-- `json!` on an `f64`: non-finite values have no JSON number. -/
def jsonF64 (x : F64) : Json :=
  if x.isFinite then .number (.float x) else .null

/-- The JSON document of one observation. -/
def payload (entry : MetricEntry) : Json :=
  let labels := jsonObject (entry.labels.map fun (k, v) => (k, .string v))
  jsonObject
    [("value", jsonF64 entry.value),
      ("metric_type", .string entry.metricType.asStr),
      ("labels", labels)]

def encodeValue (serde : SerdeJson) (entry : MetricEntry) : Bytes :=
  utf8 (serde.toString (payload entry))

/-- Decode `(value, metric_type, labels_json)` from a value payload. -/
def decodeValue (serde : SerdeJson) (raw : Bytes) : F64 × String × String :=
  match serde.fromSlice raw with
  | none => (F64.zero, "unknown", "{}")
  | some v =>
      let value :=
        match v.get "value" with
        | some (.number n) => (serde.asF64 n).getD F64.zero
        | _ => F64.zero
      let kind := ((v.get "metric_type").bind Json.asStr).getD "unknown"
      let labels :=
        match v.get "labels" with
        | some (.object members) => serde.toString (.object members)
        | _ => "{}"
      (value, kind, labels)

end Tonggeret.Storage
