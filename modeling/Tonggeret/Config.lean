import Tonggeret.Types

/-!
# User-facing configuration

Durations are in nanoseconds; `usize` is 64 bits wide.  Validation is that of a
build with the `fjall-backend` feature.
-/

namespace Tonggeret

structure FjallConfig where
  dir : String
  cacheSizeBytes : UInt64
  memtableBytes : UInt32
  coldStorageDir : Option String
  enableCompaction : Bool
  compactionInterval : Nat
  retention : Nat
  batchRows : UInt64

def FjallConfig.default : FjallConfig where
  dir := "./data/fjall"
  cacheSizeBytes := 8 * 1024 * 1024
  memtableBytes := 2 * 1024 * 1024
  coldStorageDir := none
  enableCompaction := true
  compactionInterval := 3600 * 1000000000
  retention := 24 * 3600 * 1000000000
  batchRows := 1000

def FjallConfig.new (dir : String) : FjallConfig := { FjallConfig.default with dir }

structure PrometheusConfig where
  defaultHistogramBuckets : List F64

/-- 5, 10, 25, 50, 100, 250, 500, 1000 and 2500 ms. -/
def PrometheusConfig.default : PrometheusConfig where
  defaultHistogramBuckets :=
    [⟨0x4014000000000000⟩, ⟨0x4024000000000000⟩, ⟨0x4039000000000000⟩,
      ⟨0x4049000000000000⟩, ⟨0x4059000000000000⟩, ⟨0x406f400000000000⟩,
      ⟨0x407f400000000000⟩, ⟨0x408f400000000000⟩, ⟨0x40a3880000000000⟩]

structure Config where
  channelCapacity : UInt64
  fjall : Option FjallConfig
  prometheus : PrometheusConfig

/-- `#[derive(Default)]`. -/
def Config.default : Config := ⟨0, none, PrometheusConfig.default⟩

def Config.defaultLight : Config := ⟨16384, none, PrometheusConfig.default⟩

def Config.defaultFull (dir : String) : Config :=
  ⟨16384, some (FjallConfig.new dir), PrometheusConfig.default⟩

def Config.withChannelCapacity (config : Config) (cap : UInt64) : Config :=
  { config with channelCapacity := cap }

def Config.withFjall (config : Config) (cfg : FjallConfig) : Config :=
  { config with fjall := some cfg }

def FjallConfig.validate (cfg : FjallConfig) : Except Error Unit :=
  if cfg.cacheSizeBytes < 1024 * 1024 then
    .error (.invalidConfig "fjall.cache_size_bytes must be >= 1 MiB")
  else if cfg.memtableBytes < 256 * 1024 then
    .error (.invalidConfig "fjall.memtable_bytes must be >= 256 KiB")
  else if cfg.batchRows = 0 then
    .error (.invalidConfig "fjall.batch_rows must be > 0")
  else .ok ()

def Config.validate (config : Config) : Except Error Unit :=
  if config.channelCapacity < 16 then
    .error (.invalidConfig "channel_capacity must be >= 16")
  else if config.prometheus.defaultHistogramBuckets.isEmpty then
    .error (.invalidConfig "prometheus.default_histogram_buckets must not be empty")
  else
    match config.fjall with
    | some db => db.validate
    | none => .ok ()

/-- Every default configuration passes its own validation. -/
theorem Config.validate_default (dir : String) :
    Config.defaultLight.validate = .ok () ∧ (Config.defaultFull dir).validate = .ok () :=
  ⟨rfl, rfl⟩

/-- The derived default does not: its channel has no capacity. -/
theorem Config.validate_derived_default :
    Config.default.validate = .error (.invalidConfig "channel_capacity must be >= 16") := rfl

/-- Only the capacity can make an accepted configuration refused when it is overridden. -/
theorem Config.validate_withChannelCapacity {config : Config} (h : config.validate = .ok ())
    (cap : UInt64) : (config.withChannelCapacity cap).validate = .ok () ↔ 16 ≤ cap := by
  have hrest : config.prometheus.defaultHistogramBuckets.isEmpty = false ∧
      (∀ db, config.fjall = some db → db.validate = .ok ()) := by
    unfold Config.validate at h
    split at h
    · contradiction
    · split at h
      · contradiction
      · rename_i hbuckets
        refine ⟨eq_false_of_ne_true hbuckets, ?_⟩
        intro db hdb
        rw [hdb] at h
        exact h
  unfold Config.validate Config.withChannelCapacity
  by_cases hcap : cap < 16
  · rw [if_pos hcap]
    exact iff_of_false (by simp) (UInt64.not_le.mpr hcap)
  · rw [if_neg hcap, hrest.1]
    refine iff_of_true ?_ (UInt64.not_lt.mp hcap)
    cases hfjall : config.fjall with
    | none => rfl
    | some db => exact hrest.2 db hfjall

end Tonggeret
