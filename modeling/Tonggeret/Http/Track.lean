import Tonggeret.Middleware
import Tonggeret.Prometheus.SeriesLog
import Tonggeret.SanitizedForm

/-!
# HTTP requests

What the request middleware of the two frameworks records: a counter and a duration for
each request that ends with a status, labelled with the method and the route template, or
the cut path where no route matched.  The machine runs any number of requests beside the
rest of the program, which records samples of its own, initializes the engine and shuts
it down.
-/

namespace Tonggeret.Middleware

open Tonggeret.Lib Tonggeret.Prometheus

/-- What the middleware reads of a request; `route` is Axum's `MatchedPath` or Actix's
`match_pattern()`. -/
structure HttpRequest where
  method : String
  route : Option String
  path : String

/-- How the wrapped service ends: with a response, or (in Actix) with an error, whose
`error_response()` has a status. -/
inductive Served
  | response (status : UInt16)
  | error (status : UInt16)

namespace Axum

/-- The `path` of `track`. -/
def trackedPath (req : HttpRequest) : Option String :=
  match req.route with
  | none => truncatePath req.path
  | some m => some m

/-- `response.status()`: the service of a `Next` does not fail. -/
def servedStatus : Served → Option UInt16
  | .response status => some status
  | .error _ => none

end Axum

namespace Actix

/-- The `path` of `TonggeretService::call`. -/
def trackedPath (req : HttpRequest) : Option String :=
  match req.route with
  | some pattern => some pattern
  | none => truncatePath req.path

def servedStatus : Served → Option UInt16
  | .response status => some status
  | .error status => some status

end Actix

/-- The framework under which the middleware runs. -/
inductive Framework
  | axum
  | actix
deriving DecidableEq

def trackedPath : Framework → HttpRequest → Option String
  | .axum => Axum.trackedPath
  | .actix => Actix.trackedPath

def servedStatus : Framework → Served → Option UInt16
  | .axum => Axum.servedStatus
  | .actix => Actix.servedStatus

/-- The entry of `record_counter`; `none` is a panic. -/
def recordCounter (now : Int) (name : String) (value : F64) (labels : List (String × String)) :
    Option MetricEntry :=
  MetricEntry.new now name value .counter labels

/-- The entry of `record_histogram`. -/
def recordHistogram (now : Int) (name : String) (value : F64)
    (labels : List (String × String)) : Option MetricEntry :=
  MetricEntry.new now name value .histogram labels

def httpRequestsTotal : String := "http_requests_total"

def httpRequestDuration : String := "http_request_duration_ms"

/-- `1.0`. -/
def one : F64 := ⟨0x3ff0000000000000⟩

/-- The first call of `track`, and of both arms of `call`. -/
def countRequest (now : Int) (method path : String) (status : UInt16) : Option MetricEntry :=
  recordCounter now httpRequestsTotal one
    [("method", method), ("path", path), ("status", toString status.toNat)]

/-- The second call. -/
def observeDuration (now : Int) (method path : String) (elapsedMs : F64) :
    Option MetricEntry :=
  recordHistogram now httpRequestDuration elapsedMs [("method", method), ("path", path)]

/-! ## The machine -/

/-- Where a request stands, with the locals it still needs: before the service, awaiting
it, before and between the loads and the updates of the two record calls, or over.  A
request is abandoned if its future is dropped or the service panics. -/
inductive RequestPc
  | idle
  | awaiting (path : String)
  | abandoned
  | panicked
  | counting (path : String) (status : UInt16) (elapsedMs : F64)
  | incrementing (entry : MetricEntry) (path : String) (status : UInt16) (elapsedMs : F64)
  | timing (path : String) (elapsedMs : F64)
  | observing (entry : MetricEntry) (path : String) (elapsedMs : F64)
  | returned

/-- The requests and what they share: the registry of the global handle, if it is set, and
the shutdown flag. -/
structure HttpServer where
  requests : Nat → RequestPc
  registry : Option PromRegistry
  flag : Bool

def HttpServer.boot : HttpServer := ⟨fun _ => .idle, none, false⟩

/-- `other` is the update of a record call from elsewhere. -/
inductive HttpAction
  | init
  | raiseFlag
  | other (entry : MetricEntry)
  | enter (i : Nat)
  | abandon (i : Nat)
  | respond (i : Nat) (served : Served) (elapsedMs : F64)
  | loadCounter (i : Nat) (now : Int)
  | updateCounter (i : Nat)
  | loadHistogram (i : Nat) (now : Int)
  | updateHistogram (i : Nat)

namespace HttpServer

def setRequest (s : HttpServer) (i : Nat) (pc : RequestPc) : HttpServer :=
  { s with requests := Function.update s.requests i pc }

@[simp] theorem registry_setRequest (s : HttpServer) (i : Nat) (pc : RequestPc) :
    (s.setRequest i pc).registry = s.registry := rfl

@[simp] theorem flag_setRequest (s : HttpServer) (i : Nat) (pc : RequestPc) :
    (s.setRequest i pc).flag = s.flag := rfl

theorem requests_setRequest (s : HttpServer) (i : Nat) (pc : RequestPc) (x : Nat) :
    (s.setRequest i pc).requests x = if x = i then pc else s.requests x :=
  Function.update_apply s.requests i pc x

/-- A record call is past `GLOBAL.get()` and the flag. -/
def records (s : HttpServer) : Bool := s.registry.isSome && !s.flag

end HttpServer

section

variable (crate : PrometheusCrate) (defaultBuckets : List F64)
variable (framework : Nat → Framework) (request : Nat → HttpRequest)

/-- `reg.update(&entry)`, after which the request goes on to `next` unless it panics. -/
def HttpServer.updateWith (s : HttpServer) (i : Nat) (entry : MetricEntry) (next : RequestPc) :
    Option HttpServer :=
  s.registry.map fun reg =>
    let (outcome, reg) := update crate reg entry
    { s with registry := some reg }.setRequest i
      (if outcome = Outcome.panicked then .panicked else next)

def httpStep (s : HttpServer) : HttpAction → Option HttpServer
  | .init =>
      if s.registry.isNone then
        some { s with registry := some (PromRegistry.new defaultBuckets) }
      else none
  | .raiseFlag => some { s with flag := true }
  | .other entry =>
      s.registry.map fun reg => { s with registry := some (update crate reg entry).2 }
  | .enter i =>
      match s.requests i with
      | .idle =>
          some (s.setRequest i ((trackedPath (framework i) (request i)).elim .panicked .awaiting))
      | _ => none
  | .abandon i =>
      match s.requests i with
      | .awaiting _ => some (s.setRequest i .abandoned)
      | _ => none
  | .respond i served elapsedMs =>
      match s.requests i with
      | .awaiting path =>
          (servedStatus (framework i) served).map fun status =>
            s.setRequest i (.counting path status elapsedMs)
      | _ => none
  | .loadCounter i now =>
      match s.requests i with
      | .counting path status elapsedMs =>
          match countRequest now (request i).method path status with
          | none => some (s.setRequest i .panicked)
          | some entry =>
              some (s.setRequest i (if s.records then .incrementing entry path status elapsedMs
                else .timing path elapsedMs))
      | _ => none
  | .updateCounter i =>
      match s.requests i with
      | .incrementing entry path _ elapsedMs =>
          s.updateWith crate i entry (.timing path elapsedMs)
      | _ => none
  | .loadHistogram i now =>
      match s.requests i with
      | .timing path elapsedMs =>
          match observeDuration now (request i).method path elapsedMs with
          | none => some (s.setRequest i .panicked)
          | some entry =>
              some (s.setRequest i (if s.records then .observing entry path elapsedMs
                else .returned))
      | _ => none
  | .updateHistogram i =>
      match s.requests i with
      | .observing entry _ _ => s.updateWith crate i entry .returned
      | _ => none

/-- Every branch of a step with its guard and its effect. -/
inductive HttpEffect (s : HttpServer) : HttpAction → HttpServer → Prop
  | init (hnone : s.registry = none) :
      HttpEffect s .init { s with registry := some (PromRegistry.new defaultBuckets) }
  | raiseFlag : HttpEffect s .raiseFlag { s with flag := true }
  | other {entry : MetricEntry} {reg : PromRegistry} (hreg : s.registry = some reg) :
      HttpEffect s (.other entry) { s with registry := some (update crate reg entry).2 }
  | enter {i : Nat} {path : String} (hpc : s.requests i = .idle)
      (hpath : trackedPath (framework i) (request i) = some path) :
      HttpEffect s (.enter i) (s.setRequest i (.awaiting path))
  | splitPath {i : Nat} (hpc : s.requests i = .idle)
      (hpath : trackedPath (framework i) (request i) = none) :
      HttpEffect s (.enter i) (s.setRequest i .panicked)
  | abandon {i : Nat} {path : String} (hpc : s.requests i = .awaiting path) :
      HttpEffect s (.abandon i) (s.setRequest i .abandoned)
  | respond {i : Nat} {served : Served} {path : String} {status : UInt16} {elapsedMs : F64}
      (hpc : s.requests i = .awaiting path)
      (hstatus : servedStatus (framework i) served = some status) :
      HttpEffect s (.respond i served elapsedMs) (s.setRequest i (.counting path status elapsedMs))
  | splitCounter {i : Nat} {now : Int} {path : String} {status : UInt16} {elapsedMs : F64}
      (hpc : s.requests i = .counting path status elapsedMs)
      (hentry : countRequest now (request i).method path status = none) :
      HttpEffect s (.loadCounter i now) (s.setRequest i .panicked)
  | loadCounter {i : Nat} {now : Int} {path : String} {status : UInt16} {elapsedMs : F64}
      {entry : MetricEntry} (hpc : s.requests i = .counting path status elapsedMs)
      (hentry : countRequest now (request i).method path status = some entry)
      (hrecords : s.records = true) :
      HttpEffect s (.loadCounter i now)
        (s.setRequest i (.incrementing entry path status elapsedMs))
  | skipCounter {i : Nat} {now : Int} {path : String} {status : UInt16} {elapsedMs : F64}
      {entry : MetricEntry} (hpc : s.requests i = .counting path status elapsedMs)
      (hentry : countRequest now (request i).method path status = some entry)
      (hskips : s.records = false) :
      HttpEffect s (.loadCounter i now) (s.setRequest i (.timing path elapsedMs))
  | updateCounter {i : Nat} {entry : MetricEntry} {path : String} {status : UInt16}
      {elapsedMs : F64} {reg : PromRegistry}
      (hpc : s.requests i = .incrementing entry path status elapsedMs)
      (hreg : s.registry = some reg) :
      HttpEffect s (.updateCounter i)
        ({ s with registry := some (update crate reg entry).2 }.setRequest i
          (if (update crate reg entry).1 = Outcome.panicked then .panicked
            else .timing path elapsedMs))
  | splitHistogram {i : Nat} {now : Int} {path : String} {elapsedMs : F64}
      (hpc : s.requests i = .timing path elapsedMs)
      (hentry : observeDuration now (request i).method path elapsedMs = none) :
      HttpEffect s (.loadHistogram i now) (s.setRequest i .panicked)
  | loadHistogram {i : Nat} {now : Int} {path : String} {elapsedMs : F64}
      {entry : MetricEntry} (hpc : s.requests i = .timing path elapsedMs)
      (hentry : observeDuration now (request i).method path elapsedMs = some entry)
      (hrecords : s.records = true) :
      HttpEffect s (.loadHistogram i now) (s.setRequest i (.observing entry path elapsedMs))
  | skipHistogram {i : Nat} {now : Int} {path : String} {elapsedMs : F64}
      {entry : MetricEntry} (hpc : s.requests i = .timing path elapsedMs)
      (hentry : observeDuration now (request i).method path elapsedMs = some entry)
      (hskips : s.records = false) :
      HttpEffect s (.loadHistogram i now) (s.setRequest i .returned)
  | updateHistogram {i : Nat} {entry : MetricEntry} {path : String} {elapsedMs : F64}
      {reg : PromRegistry} (hpc : s.requests i = .observing entry path elapsedMs)
      (hreg : s.registry = some reg) :
      HttpEffect s (.updateHistogram i)
        ({ s with registry := some (update crate reg entry).2 }.setRequest i
          (if (update crate reg entry).1 = Outcome.panicked then .panicked else .returned))

variable {crate defaultBuckets framework request} {s t : HttpServer}

/-- Inversion: an enabled action is one of the branches. -/
theorem httpStep_cases {action : HttpAction}
    (h : httpStep crate defaultBuckets framework request s action = some t) :
    HttpEffect crate defaultBuckets framework request s action t := by
  cases action with
  | init =>
      simp only [httpStep] at h
      split at h
      · rename_i hnone
        obtain rfl := Option.some.inj h
        exact .init (Option.isNone_iff_eq_none.mp hnone)
      · contradiction
  | raiseFlag =>
      obtain rfl := Option.some.inj h
      exact .raiseFlag
  | other entry =>
      obtain ⟨reg, hreg, rfl⟩ := Option.map_eq_some_iff.mp h
      exact .other hreg
  | enter i =>
      simp only [httpStep] at h
      split at h
      · rename_i hpc
        obtain rfl := Option.some.inj h
        cases hpath : trackedPath (framework i) (request i) with
        | none => exact .splitPath hpc hpath
        | some path => exact .enter hpc hpath
      · contradiction
  | abandon i =>
      simp only [httpStep] at h
      split at h
      · obtain rfl := Option.some.inj h
        exact .abandon ‹_›
      · contradiction
  | respond i served elapsedMs =>
      simp only [httpStep] at h
      split at h
      · obtain ⟨status, hstatus, rfl⟩ := Option.map_eq_some_iff.mp h
        exact .respond ‹_› hstatus
      · contradiction
  | loadCounter i now =>
      simp only [httpStep] at h
      split at h
      · rename_i path status elapsedMs hpc
        cases hentry : countRequest now (request i).method path status with
        | none =>
            rw [hentry] at h
            obtain rfl := Option.some.inj h
            exact .splitCounter hpc hentry
        | some entry =>
            rw [hentry] at h
            obtain rfl := Option.some.inj h
            by_cases hrecords : s.records = true
            · rw [if_pos hrecords]
              exact .loadCounter hpc hentry hrecords
            · rw [if_neg hrecords]
              exact .skipCounter hpc hentry (eq_false_of_ne_true hrecords)
      · contradiction
  | updateCounter i =>
      simp only [httpStep] at h
      split at h
      · obtain ⟨reg, hreg, rfl⟩ := Option.map_eq_some_iff.mp h
        exact .updateCounter ‹_› hreg
      · contradiction
  | loadHistogram i now =>
      simp only [httpStep] at h
      split at h
      · rename_i path elapsedMs hpc
        cases hentry : observeDuration now (request i).method path elapsedMs with
        | none =>
            rw [hentry] at h
            obtain rfl := Option.some.inj h
            exact .splitHistogram hpc hentry
        | some entry =>
            rw [hentry] at h
            obtain rfl := Option.some.inj h
            by_cases hrecords : s.records = true
            · rw [if_pos hrecords]
              exact .loadHistogram hpc hentry hrecords
            · rw [if_neg hrecords]
              exact .skipHistogram hpc hentry (eq_false_of_ne_true hrecords)
      · contradiction
  | updateHistogram i =>
      simp only [httpStep] at h
      split at h
      · obtain ⟨reg, hreg, rfl⟩ := Option.map_eq_some_iff.mp h
        exact .updateHistogram ‹_› hreg
      · contradiction

end

end Tonggeret.Middleware
