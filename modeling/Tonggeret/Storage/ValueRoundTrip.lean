import Tonggeret.Storage.Value

/-!
# Round trip of value payloads

The exporter reads a payload by field name and falls back silently, so a payload
survives only if every field is present with the type the reader asks for.  A
value without a JSON number is the one field that is not.
-/

namespace Tonggeret.Storage

open Tonggeret.Lib

/-- The JSON object of an entry's labels. -/
def labelsObject (entry : MetricEntry) : Json :=
  jsonObject (entry.labels.map fun (k, v) => (k, .string v))

/-- Parsing the text of a document gives the document back. -/
def Preserves (serde : SerdeJson) (document : Json) : Prop :=
  serde.fromSlice (utf8 (serde.toString document)) = some document

/-- The stored bytes are read back as the entry's value, kind and label pairs. -/
def ReadsBack (serde : SerdeJson) (entry : MetricEntry) : Prop :=
  ∃ labels members,
    decodeValue serde (encodeValue serde entry) =
        (entry.value, entry.metricType.asStr, labels) ∧
      serde.fromSlice (utf8 labels) = some (.object members) ∧
      members.Perm (entry.labels.map fun (k, v) => (k, .string v))

/-- Every field the reader asks for is there, so none of its defaults is used. -/
def NoFallback (serde : SerdeJson) (raw : Bytes) : Prop :=
  ∃ document number x kind members,
    serde.fromSlice raw = some document ∧
      document.get "value" = some (.number number) ∧ serde.asF64 number = some x ∧
      document.get "metric_type" = some (.string kind) ∧
      document.get "labels" = some (.object members)

/-! ## Fields of a payload -/

theorem get_jsonObject {members : List (String × Json)}
    (hnodup : (members.map Prod.fst).Nodup) {key : String} {value : Json} :
    (jsonObject members).get key = some value ↔ (key, value) ∈ members := by
  rw [jsonObject, Json.get, SortedMap.lookup_entries, SortedMap.get?_eq_some,
    SortedMap.mem_insertAll_of_nodup hnodup]
  simp

theorem payload_fields (entry : MetricEntry) :
    (payload entry).get "value" = some (jsonF64 entry.value) ∧
      (payload entry).get "metric_type" = some (.string entry.metricType.asStr) ∧
      (payload entry).get "labels" = some (labelsObject entry) := by
  have hnodup : ([("value", jsonF64 entry.value),
      ("metric_type", .string entry.metricType.asStr),
      ("labels", labelsObject entry)].map Prod.fst).Nodup := by
    simp
  refine ⟨?_, ?_, ?_⟩
  · exact (get_jsonObject hnodup).mpr (by simp)
  · exact (get_jsonObject hnodup).mpr (by simp)
  · exact (get_jsonObject hnodup).mpr (by simp)

theorem labelsObject_perm {entry : MetricEntry} (hkeys : (entry.labels.map Prod.fst).Nodup) :
    ∃ members, labelsObject entry = .object members ∧
      members.Perm (entry.labels.map fun (k, v) => (k, .string v)) := by
  have hnodup : ((entry.labels.map fun (k, v) => (k, Json.string v)).map Prod.fst).Nodup := by
    rw [List.map_map]
    exact hkeys
  exact ⟨_, rfl, SortedMap.perm_insertAll_empty hnodup⟩

theorem jsonF64_eq_number {x : F64} {n : JsonNumber} (h : jsonF64 x = .number n) :
    x.isFinite = true ∧ n = .float x := by
  rw [jsonF64] at h
  split at h
  · rename_i hfinite
    exact ⟨hfinite, (Json.number.inj h).symm⟩
  · contradiction

/-! ## What the exporter reads -/

variable {serde : SerdeJson} {entry : MetricEntry}

theorem decodeValue_encodeValue (hdocument : Preserves serde (payload entry))
    (hfloat : serde.asF64 (.float entry.value) = some entry.value)
    (hfinite : entry.value.isFinite = true) :
    decodeValue serde (encodeValue serde entry) =
      (entry.value, entry.metricType.asStr, serde.toString (labelsObject entry)) := by
  obtain ⟨hvalue, hkind, hlabels⟩ := payload_fields entry
  have hparsed : serde.fromSlice (encodeValue serde entry) = some (payload entry) := hdocument
  rw [jsonF64, if_pos hfinite] at hvalue
  rw [decodeValue, hparsed]
  simp only [hvalue, hkind, hlabels, hfloat, Option.bind_some, Json.asStr, Option.getD_some]
  rfl

/-- A payload survives, and without any default, exactly if its value is finite. -/
theorem reads_back_iff_finite (serde : SerdeJson) (entry : MetricEntry)
    (hkeys : (entry.labels.map Prod.fst).Nodup)
    (hdocument : Preserves serde (payload entry))
    (hlabels : Preserves serde (labelsObject entry))
    (hfloat : ∀ x : F64, x.isFinite → serde.asF64 (.float x) = some x) :
    ReadsBack serde entry ∧ NoFallback serde (encodeValue serde entry) ↔
      entry.value.isFinite = true := by
  obtain ⟨members, hmembers, hperm⟩ := labelsObject_perm hkeys
  obtain ⟨hgetValue, hgetKind, hgetLabels⟩ := payload_fields entry
  constructor
  · rintro ⟨-, document, number, x, kind, members', hparsed, hvalue, -⟩
    have hsame : some (payload entry) = some document := hdocument.symm.trans hparsed
    obtain rfl := Option.some.inj hsame
    rw [hgetValue] at hvalue
    exact (jsonF64_eq_number (Option.some.inj hvalue)).1
  · intro hfinite
    have hnumber : jsonF64 entry.value = .number (.float entry.value) := if_pos hfinite
    constructor
    · refine ⟨serde.toString (labelsObject entry), members, ?_, ?_, hperm⟩
      · exact decodeValue_encodeValue hdocument (hfloat _ hfinite) hfinite
      · rw [← hmembers]
        exact hlabels
    · refine ⟨payload entry, .float entry.value, entry.value, entry.metricType.asStr, members,
        hdocument, ?_, hfloat _ hfinite, hgetKind, ?_⟩
      · rw [hgetValue, hnumber]
      · rw [hgetLabels, hmembers]

/-! ## Two payloads -/

/-- One label and a value of one; `serde_json` prints the value as `1.0`. -/
def oneEntry : MetricEntry := ⟨0, "hits", ⟨0x3ff0000000000000⟩, .counter, [("method", "GET")]⟩

/-- The same observation of a quiet NaN. -/
def nanEntry : MetricEntry := { oneEntry with value := ⟨0x7ff8000000000000⟩ }

/-- `serde_json` on the documents of `oneEntry` and `nanEntry`. -/
def twoPayloads : SerdeJson where
  fromSlice raw :=
    [(utf8 "\x7b\"method\":\"GET\"\x7d", labelsObject oneEntry),
      (utf8 "\x7b\"labels\":\x7b\"method\":\"GET\"\x7d,\"metric_type\":\"counter\",\"value\":1.0\x7d",
        payload oneEntry),
      (utf8 "\x7b\"labels\":\x7b\"method\":\"GET\"\x7d,\"metric_type\":\"counter\",\"value\":null\x7d",
        payload nanEntry)].lookup raw
  toString
    | .object [("labels", _), ("metric_type", _), ("value", .number _)] =>
        "\x7b\"labels\":\x7b\"method\":\"GET\"\x7d,\"metric_type\":\"counter\",\"value\":1.0\x7d"
    | .object [("labels", _), ("metric_type", _), ("value", _)] =>
        "\x7b\"labels\":\x7b\"method\":\"GET\"\x7d,\"metric_type\":\"counter\",\"value\":null\x7d"
    | _ => "\x7b\"method\":\"GET\"\x7d"
  asF64
    | .float x => some x
    | _ => none

theorem twoPayloads_preserves :
    Preserves twoPayloads (payload oneEntry) ∧ Preserves twoPayloads (labelsObject oneEntry) ∧
      Preserves twoPayloads (payload nanEntry) := by
  refine ⟨?_, ?_, ?_⟩
  · rfl
  · rfl
  · rfl

theorem one_reads_back :
    ReadsBack twoPayloads oneEntry ∧
      NoFallback twoPayloads (encodeValue twoPayloads oneEntry) :=
  (reads_back_iff_finite twoPayloads oneEntry (by simp [oneEntry]) twoPayloads_preserves.1
    twoPayloads_preserves.2.1 (fun _ _ => rfl)).mpr (by decide)

/-- A NaN is printed as `null` and read back as `0.0`. -/
theorem nan_reads_back_as_zero :
    (nanEntry.labels.map Prod.fst).Nodup ∧ Preserves twoPayloads (payload nanEntry) ∧
      Preserves twoPayloads (labelsObject nanEntry) ∧
      decodeValue twoPayloads (encodeValue twoPayloads nanEntry) =
        (F64.zero, "counter", "\x7b\"method\":\"GET\"\x7d") ∧
      ¬ ReadsBack twoPayloads nanEntry := by
  have hread : decodeValue twoPayloads (encodeValue twoPayloads nanEntry) =
      (F64.zero, "counter", "\x7b\"method\":\"GET\"\x7d") := by
    rfl
  refine ⟨by simp [nanEntry, oneEntry], twoPayloads_preserves.2.2, twoPayloads_preserves.2.1,
    hread, ?_⟩
  rintro ⟨labels, members, hdecode, -⟩
  rw [hread] at hdecode
  have hvalue : F64.zero = nanEntry.value := congrArg Prod.fst hdecode
  exact absurd hvalue (by decide)

end Tonggeret.Storage
