import Tonggeret.Http.Track
import Tonggeret.Lib.Fields
import Tonggeret.Lib.Transition

/-!
# The request series

In any interleaving the two metrics hold one increment for each request that was counted
and one duration for each that was timed, under its own labels.  While the engine is up
these are exactly the requests that ended, so the durations of a method and a path are as
many as its requests over all statuses.
-/

namespace Tonggeret.Middleware

open Tonggeret.Lib Tonggeret.Prometheus

/-! ## What is noted of a run -/

inductive Event
  | ended (status : UInt16) (elapsedMs : F64)
  | counted (status : UInt16) (entry : MetricEntry)
  | timed (elapsedMs : F64) (entry : MetricEntry)

inductive Noted
  | request (i : Nat) (event : Event)
  | other (entry : MetricEntry)

def endingOf (framework : Framework) (i : Nat) (served : Served) (elapsedMs : F64) :
    List Noted :=
  (servedStatus framework served).toList.map fun status => .request i (.ended status elapsedMs)

/-- Requests that end, and the entries that the registry takes. -/
def notes (framework : Nat → Framework) (s : HttpServer) : HttpAction → List Noted
  | .other entry => [.other entry]
  | .respond i served elapsedMs => endingOf (framework i) i served elapsedMs
  | .updateCounter i =>
      match s.requests i with
      | .incrementing entry _ status _ => [.request i (.counted status entry)]
      | _ => []
  | .updateHistogram i =>
      match s.requests i with
      | .observing entry _ elapsedMs => [.request i (.timed elapsedMs entry)]
      | _ => []
  | _ => []

def Event.entry? : Event → Option MetricEntry
  | .ended _ _ => none
  | .counted _ entry => some entry
  | .timed _ entry => some entry

def Noted.entry? : Noted → Option MetricEntry
  | .request _ event => event.entry?
  | .other entry => some entry

/-- The entries that the registry takes. -/
def entriesOf (log : List Noted) : List MetricEntry := log.filterMap Noted.entry?

def Noted.of (i : Nat) : Noted → Option Event
  | .request j event => if j = i then some event else none
  | .other _ => none

/-- What happens to one request. -/
def historyOf (log : List Noted) (i : Nat) : List Event := log.filterMap (Noted.of i)

def Noted.pick {β : Type} (f : Event → Option β) : Noted → Option (Nat × β)
  | .request i event => (f event).map (i, ·)
  | .other _ => none

/-- The events of all requests that `f` picks, with their requests. -/
def pick {β : Type} (f : Event → Option β) (log : List Noted) : List (Nat × β) :=
  log.filterMap (Noted.pick f)

namespace Event

def status? : Event → Option UInt16
  | .ended status _ => some status
  | _ => none

def elapsed? : Event → Option F64
  | .ended _ elapsedMs => some elapsedMs
  | _ => none

def counted? : Event → Option UInt16
  | .counted status _ => some status
  | _ => none

def timed? : Event → Option F64
  | .timed elapsedMs _ => some elapsedMs
  | _ => none

end Event

theorem pick_of_request {β : Type} (f : Event → Option β) (log : List Noted) (i : Nat) :
    (pick f log).filter (·.1 = i) = ((historyOf log i).filterMap f).map (i, ·) := by
  induction log with
  | nil => rfl
  | cons noted log ih =>
      rw [pick, historyOf, List.filterMap_cons, List.filterMap_cons, ← pick, ← historyOf]
      cases noted with
      | other entry => exact ih
      | request j event =>
          by_cases hj : j = i
          · subst hj
            cases hf : f event <;> simp [Noted.pick, Noted.of, hf, ih]
          · cases hf : f event <;> simp [Noted.pick, Noted.of, hf, hj, ih]

/-- Where two lists agree on every part, they hold the same. -/
theorem perm_filter_of_parts {β : Type} [DecidableEq β] {l l' : List (Nat × β)}
    {p : Nat × β → Bool}
    (h : ∀ x, p x = true → l.filter (·.1 = x.1) = l'.filter (·.1 = x.1)) :
    (l.filter p).Perm (l'.filter p) := by
  rw [List.perm_iff_count]
  intro x
  by_cases hx : p x = true
  · have hpart : ∀ l : List (Nat × β), l.count x = (l.filter (·.1 = x.1)).count x :=
      fun l => (List.count_filter (by simp)).symm
    rw [List.count_filter hx, List.count_filter hx, hpart l, hpart l', h x hx]
  · rw [List.count_eq_zero.mpr fun hmem => hx (List.of_mem_filter hmem),
      List.count_eq_zero.mpr fun hmem => hx (List.of_mem_filter hmem)]

/-! ## Labels -/

theorem utf8ByteSize_status_le (status : UInt16) :
    (toString status.toNat).utf8ByteSize ≤ maxVal := by
  have hascii : ∀ c ∈ Nat.toDigits 10 status.toNat, c.utf8Size = 1 := fun c hc =>
    utf8Size_of_isAlphanum (isAlphanum_of_mem_toDigits (by decide) (by decide) hc)
  have hlt : status.toNat < 10 ^ 5 := status.toNat_lt.trans (by decide)
  have hlength : (Nat.toDigits 10 status.toNat).length ≤ 5 :=
    (Nat.length_toDigits_le_iff (by decide) (by decide)).mpr hlt
  have hsize : (toString status.toNat).utf8ByteSize = (Nat.toDigits 10 status.toNat).length := by
    rw [show toString status.toNat = String.ofList (Nat.toDigits 10 status.toNat) from rfl,
      String.utf8ByteSize_ofList, utf8Len_of_ascii hascii]
  rw [hsize]
  exact hlength.trans (by decide)

theorem status_text_inj {status status' : UInt16}
    (h : toString status.toNat = toString status'.toNat) : status = status' := by
  have hdigits : Nat.toDigits 10 status.toNat = Nat.toDigits 10 status'.toNat :=
    String.ofList_injective h
  exact UInt16.toNat_inj.mp (toDigits_injective (by decide) (by decide) hdigits)

/-- Labels with names come out with their values cut. -/
theorem new_of_names {now : Int} {name : String} {value : F64} {kind : MetricType}
    {labels : List (String × String)} {entry : MetricEntry} (hname : isMetricName name = true)
    (keys : List String) (hlabels : labels.map Prod.fst = keys) (hcapped : keys.length ≤ maxPairs)
    (hgrammar : ∀ key ∈ keys, isMetricName key = true ∧ key.utf8ByteSize ≤ maxKey) :
    MetricEntry.new now name value kind labels = some entry ↔
      ∃ pairs, entry = ⟨now, name, value, kind, pairs⟩ ∧
        List.Forall₂ (fun raw pair => pair.1 = raw.1 ∧
          truncateLonger maxVal raw.2 = some pair.2) labels pairs := by
  have hkeys : ∀ label ∈ labels,
      isMetricName label.1 = true ∧ label.1.utf8ByteSize ≤ maxKey := by
    intro label hlabel
    exact hgrammar _ (hlabels ▸ List.mem_map_of_mem hlabel)
  have hlength : labels.length ≤ maxPairs := by
    rw [← hlabels, List.length_map] at hcapped
    exact hcapped
  have hkept : keptLabels labels = labels := by
    have hnone : ∀ label ∈ labels, (!(trim label.1).isEmpty) = true := by
      intro label hlabel
      rw [trim_of_isMetricName (hkeys label hlabel).1]
      simpa using (isMetricName_iff.mp (hkeys label hlabel).1).1
    rw [keptLabels, List.filter_eq_self.mpr hnone, List.take_of_length_le hlength]
  have hpairs : ∀ pairs, sanitizeLabels labels = some pairs ↔
      List.Forall₂ (fun raw pair => pair.1 = raw.1 ∧
        truncateLonger maxVal raw.2 = some pair.2) labels pairs := by
    intro pairs
    rw [sanitizeLabels_eq_some, hkept, List.forall₂_iff_get, List.forall₂_iff_get]
    refine and_congr_right fun hlength => forall_congr' fun i => forall_congr' fun hi =>
      forall_congr' fun hi' => ?_
    obtain ⟨hkey, hsize⟩ := hkeys _ (List.get_mem labels ⟨i, hi⟩)
    rw [cleanKey_of_isMetricName hkey hsize]
  rw [MetricEntry.new, sanitizeMetricName_of_isMetricName hname, Option.bind_eq_bind,
    Option.bind_eq_some_iff]
  constructor
  · rintro ⟨pairs, hsome, hentry⟩
    exact ⟨pairs, (Option.some.inj hentry).symm, (hpairs pairs).mp hsome⟩
  · rintro ⟨pairs, rfl, hforall⟩
    exact ⟨pairs, (hpairs pairs).mpr hforall, rfl⟩

def requestKeys : List String := ["method", "path", "status"]

def durationKeys : List String := ["method", "path"]

/-- The entry of the counter, with the values as cut. -/
def counterEntry (now : Int) (method path : String) (status : UInt16) : MetricEntry :=
  ⟨now, httpRequestsTotal, one, .counter,
    [("method", method), ("path", path), ("status", toString status.toNat)]⟩

def durationEntry (now : Int) (method path : String) (elapsedMs : F64) : MetricEntry :=
  ⟨now, httpRequestDuration, elapsedMs, .histogram, [("method", method), ("path", path)]⟩

theorem countRequest_eq_some {now : Int} {method path : String} {status : UInt16}
    {entry : MetricEntry} :
    countRequest now method path status = some entry ↔
      ∃ m p, truncateLonger maxVal method = some m ∧ truncateLonger maxVal path = some p ∧
        entry = counterEntry now m p status := by
  rw [countRequest, recordCounter, new_of_names (by decide) requestKeys rfl (by decide)
    (by decide +kernel)]
  constructor
  · rintro ⟨pairs, rfl, hpairs⟩
    simp only [List.forall₂_cons_left_iff, List.forall₂_nil_left_iff] at hpairs
    obtain ⟨⟨k, m⟩, _, ⟨hk, hm⟩, ⟨⟨k', p⟩, _, ⟨hk', hp⟩, ⟨⟨k'', t⟩, _, ⟨hk'', ht⟩, rfl, rfl⟩, rfl⟩,
      rfl⟩ := hpairs
    rw [truncateLonger_of_le (utf8ByteSize_status_le status)] at ht
    obtain rfl := Option.some.inj ht
    subst hk hk' hk''
    exact ⟨m, p, hm, hp, rfl⟩
  · rintro ⟨m, p, hm, hp, rfl⟩
    exact ⟨_, rfl, .cons ⟨rfl, hm⟩ (.cons ⟨rfl, hp⟩
      (.cons ⟨rfl, truncateLonger_of_le (utf8ByteSize_status_le status)⟩ .nil))⟩

theorem observeDuration_eq_some {now : Int} {method path : String} {elapsedMs : F64}
    {entry : MetricEntry} :
    observeDuration now method path elapsedMs = some entry ↔
      ∃ m p, truncateLonger maxVal method = some m ∧ truncateLonger maxVal path = some p ∧
        entry = durationEntry now m p elapsedMs := by
  rw [observeDuration, recordHistogram, new_of_names (by decide) durationKeys rfl (by decide)
    (by decide +kernel)]
  constructor
  · rintro ⟨pairs, rfl, hpairs⟩
    simp only [List.forall₂_cons_left_iff, List.forall₂_nil_left_iff] at hpairs
    obtain ⟨⟨k, m⟩, _, ⟨hk, hm⟩, ⟨⟨k', p⟩, _, ⟨hk', hp⟩, rfl, rfl⟩, rfl⟩ := hpairs
    subst hk hk'
    exact ⟨m, p, hm, hp, rfl⟩
  · rintro ⟨m, p, hm, hp, rfl⟩
    exact ⟨_, rfl, .cons ⟨rfl, hm⟩ (.cons ⟨rfl, hp⟩ .nil)⟩

/-! ## The invariant -/

section

variable (framework : Nat → Framework) (request : Nat → HttpRequest)

/-- The labels of a request, if its method and path can be cut. -/
def Labelled (i : Nat) (method path : String) : Prop :=
  truncateLonger maxVal (request i).method = some method ∧
    (trackedPath (framework i) (request i)).bind (truncateLonger maxVal) = some path

instance (i : Nat) (method path : String) :
    Decidable (Labelled framework request i method path) :=
  inferInstanceAs (Decidable (_ ∧ _))

/-- The locals of a request are what the code computes; it panics at its labels only. -/
def LocalsFit (i : Nat) : RequestPc → Prop
  | .awaiting path | .counting path _ _ => trackedPath (framework i) (request i) = some path
  | .incrementing entry path status _ => trackedPath (framework i) (request i) = some path ∧
      ∃ now m p, Labelled framework request i m p ∧ entry = counterEntry now m p status
  | .timing path _ => trackedPath (framework i) (request i) = some path ∧
      ∃ m p, Labelled framework request i m p
  | .observing entry path elapsedMs => trackedPath (framework i) (request i) = some path ∧
      ∃ now m p, Labelled framework request i m p ∧ entry = durationEntry now m p elapsedMs
  | .panicked => ¬ ∃ m p, Labelled framework request i m p
  | _ => True

def NotedFits : Noted → Prop
  | .request _ (.ended _ _) => True
  | .request i (.counted status entry) =>
      ∃ now m p, Labelled framework request i m p ∧ entry = counterEntry now m p status
  | .request i (.timed elapsedMs entry) =>
      ∃ now m p, Labelled framework request i m p ∧ entry = durationEntry now m p elapsedMs
  | .other entry => entry.name ≠ httpRequestsTotal ∧ entry.name ≠ httpRequestDuration

end

/-- What happened to a request, by its place; `skips` if a record call may have met no
engine or the flag, `old` if the request was over before. -/
def PastFits (skips old : Prop) (history : List Event) : RequestPc → Prop
  | .idle | .awaiting _ | .abandoned => history = []
  | .panicked => history = [] ∨ ∃ status elapsedMs, history = [.ended status elapsedMs]
  | .counting _ status elapsedMs | .incrementing _ _ status elapsedMs =>
      history = [.ended status elapsedMs]
  | .timing _ elapsedMs | .observing _ _ elapsedMs => ∃ status entry,
      history = [.ended status elapsedMs, .counted status entry] ∨
        skips ∧ history = [.ended status elapsedMs]
  | .returned => old ∧ history = [] ∨ ∃ status elapsedMs entry entry',
      history = [.ended status elapsedMs, .counted status entry, .timed elapsedMs entry'] ∨
        skips ∧ history.Sublist
          [.ended status elapsedMs, .counted status entry, .timed elapsedMs entry']

theorem PastFits.mono {skips skips' old : Prop} {history : List Event} {pc : RequestPc}
    (h : PastFits skips old history pc) (himp : skips → skips') :
    PastFits skips' old history pc := by
  cases pc with
  | timing path elapsedMs =>
      obtain ⟨status, entry, hpast⟩ := h
      exact ⟨status, entry, hpast.imp_right (And.imp_left himp)⟩
  | observing entry path elapsedMs =>
      obtain ⟨status, entry, hpast⟩ := h
      exact ⟨status, entry, hpast.imp_right (And.imp_left himp)⟩
  | returned =>
      refine h.imp_right ?_
      rintro ⟨status, elapsedMs, entry, entry', hpast⟩
      exact ⟨status, elapsedMs, entry, entry', hpast.imp_right (And.imp_left himp)⟩
  | _ => exact h

/-- The events are at most an end, its count and its duration, in this order. -/
def AtMostOnce (history : List Event) : Prop :=
  ∃ status elapsedMs entry entry', history.Sublist
    [.ended status elapsedMs, .counted status entry, .timed elapsedMs entry']

theorem PastFits.atMostOnce {skips old : Prop} {history : List Event} {pc : RequestPc}
    (h : PastFits skips old history pc) : AtMostOnce history := by
  have hempty : AtMostOnce [] :=
    ⟨0, F64.zero, counterEntry 0 "" "" 0, counterEntry 0 "" "" 0, List.nil_sublist _⟩
  have hended : ∀ status elapsedMs, AtMostOnce [.ended status elapsedMs] :=
    fun status elapsedMs => ⟨status, elapsedMs, counterEntry 0 "" "" 0, counterEntry 0 "" "" 0,
      List.sublist_append_left _ [_, _]⟩
  have hcounted : ∀ {elapsedMs : F64}, (∃ status entry,
      history = [.ended status elapsedMs, .counted status entry] ∨
        skips ∧ history = [.ended status elapsedMs]) → AtMostOnce history := by
    rintro elapsedMs ⟨status, entry, rfl | ⟨-, rfl⟩⟩
    · exact ⟨status, elapsedMs, entry, entry, List.sublist_append_left _ [_]⟩
    · exact hended status elapsedMs
  cases pc with
  | idle => exact h ▸ hempty
  | awaiting path => exact h ▸ hempty
  | abandoned => exact h ▸ hempty
  | panicked =>
      rcases h with h | ⟨status, elapsedMs, h⟩
      · exact h ▸ hempty
      · exact h ▸ hended status elapsedMs
  | counting path status elapsedMs => exact h ▸ hended status elapsedMs
  | incrementing entry path status elapsedMs => exact h ▸ hended status elapsedMs
  | timing path elapsedMs => exact hcounted h
  | observing entry path elapsedMs => exact hcounted h
  | returned =>
      rcases h with ⟨-, h⟩ | ⟨status, elapsedMs, entry, entry', h | ⟨-, h⟩⟩
      · exact h ▸ hempty
      · exact ⟨status, elapsedMs, entry, entry', h ▸ List.Sublist.refl _⟩
      · exact ⟨status, elapsedMs, entry, entry', h⟩

/-- The crate accepts the definitions of both metrics and makes their series; for the
histogram that includes its buckets. -/
structure MetricsDefined (crate : PrometheusCrate) (defaultBuckets : List F64) : Prop where
  counter : crate.vecError .counter
    (vecOpts (PromRegistry.new defaultBuckets) .counter httpRequestsTotal) requestKeys = none
  histogram : crate.vecError .histogram
    (vecOpts (PromRegistry.new defaultBuckets) .histogram httpRequestDuration) durationKeys = none
  counterSeries : crate.childError .counter
    (vecOpts (PromRegistry.new defaultBuckets) .counter httpRequestsTotal) requestKeys = none
  histogramSeries : crate.childError .histogram
    (vecOpts (PromRegistry.new defaultBuckets) .histogram httpRequestDuration) durationKeys = none

section

variable (crate : PrometheusCrate) (defaultBuckets : List F64)
variable (framework : Nat → Framework) (request : Nat → HttpRequest)

/-- After the run that `log` notes, from a state whose past `before` notes. -/
structure Observed (start : HttpServer) (before log : List Noted) (s : HttpServer) : Prop where
  registry : ∀ reg, s.registry = some reg →
    reg = updates crate (PromRegistry.new defaultBuckets) (entriesOf (before ++ log))
  unset : s.registry = none → entriesOf (before ++ log) = [] ∧ start.registry = none
  locals : ∀ i, LocalsFit framework request i (s.requests i)
  past : ∀ i, PastFits (s.flag = true ∨ start.registry = none) (start.requests i = .returned)
    (historyOf log i) (s.requests i)
  fits : ∀ noted ∈ before ++ log, NotedFits framework request noted

variable {crate defaultBuckets framework request}
variable {start s t : HttpServer} {before log : List Noted}

theorem entriesOf_append (first second : List Noted) :
    entriesOf (first ++ second) = entriesOf first ++ entriesOf second :=
  List.filterMap_append

theorem historyOf_append (first second : List Noted) (i : Nat) :
    historyOf (first ++ second) i = historyOf first i ++ historyOf second i :=
  List.filterMap_append

theorem historyOf_request (events : List Event) (i x : Nat) :
    historyOf (events.map (.request i)) x = if x = i then events else [] := by
  induction events with
  | nil => simp [historyOf]
  | cons event events ih =>
      rw [List.map_cons, historyOf, List.filterMap_cons, ← historyOf, ih]
      by_cases hx : x = i
      · simp [Noted.of, hx]
      · simp [Noted.of, hx, Ne.symm hx]

/-- All entries of the two metrics are of one kind and with one list of label names. -/
theorem agreed_of_fits (hdefined : MetricsDefined crate defaultBuckets)
    (hfits : ∀ noted ∈ log, NotedFits framework request noted) :
    Agreed crate defaultBuckets httpRequestsTotal .counter requestKeys (entriesOf log) ∧
      Agreed crate defaultBuckets httpRequestDuration .histogram durationKeys
        (entriesOf log) := by
  have hne : httpRequestDuration ≠ httpRequestsTotal := by decide
  have hall : ∀ entry ∈ entriesOf log,
      (entry.name = httpRequestsTotal →
        entry.metricType = .counter ∧ labelNames entry = requestKeys) ∧
      (entry.name = httpRequestDuration →
        entry.metricType = .histogram ∧ labelNames entry = durationKeys) := by
    intro entry hentry
    obtain ⟨noted, hnoted, hsome⟩ := List.mem_filterMap.mp hentry
    have hfit := hfits noted hnoted
    cases noted with
    | other e =>
        obtain rfl := Option.some.inj hsome
        exact ⟨fun h => absurd h hfit.1, fun h => absurd h hfit.2⟩
    | request i event =>
        cases event with
        | ended status elapsedMs => contradiction
        | counted status e =>
            obtain rfl := Option.some.inj hsome
            obtain ⟨now, m, p, -, rfl⟩ := hfit
            exact ⟨fun _ => ⟨rfl, rfl⟩, fun h => absurd h.symm hne⟩
        | timed elapsedMs e =>
            obtain rfl := Option.some.inj hsome
            obtain ⟨now, m, p, -, rfl⟩ := hfit
            exact ⟨fun h => absurd h hne, fun _ => ⟨rfl, rfl⟩⟩
  exact ⟨⟨fun entry hentry => (hall entry hentry).1, by decide, hdefined.counter,
      hdefined.counterSeries⟩,
    ⟨fun entry hentry => (hall entry hentry).2, by decide, hdefined.histogram,
      hdefined.histogramSeries⟩⟩

/-- A request moves on, with what is noted of it. -/
theorem Observed.move (h : Observed crate defaultBuckets framework request start before log s)
    {i : Nat} {pc : RequestPc} {events : List Event} (registry : Option PromRegistry)
    (hregistry : ∀ reg, registry = some reg → reg = updates crate
      (PromRegistry.new defaultBuckets) (entriesOf (before ++ (log ++ events.map (.request i)))))
    (hunset : registry = none →
      entriesOf (before ++ (log ++ events.map (.request i))) = [] ∧ start.registry = none)
    (hlocals : LocalsFit framework request i pc)
    (hpast : PastFits (s.flag = true ∨ start.registry = none) (start.requests i = .returned)
      (historyOf log i ++ events) pc)
    (hfits : ∀ event ∈ events, NotedFits framework request (.request i event)) :
    Observed crate defaultBuckets framework request start before
      (log ++ events.map (.request i)) ({ s with registry }.setRequest i pc) := by
  refine ⟨hregistry, hunset, ?_, ?_, ?_⟩
  · intro x
    rw [HttpServer.requests_setRequest]
    by_cases hx : x = i
    · rw [if_pos hx, hx]
      exact hlocals
    · rw [if_neg hx]
      exact h.locals x
  · intro x
    rw [HttpServer.requests_setRequest, historyOf_append, historyOf_request]
    by_cases hx : x = i
    · rw [if_pos hx, if_pos hx, hx]
      exact hpast
    · rw [if_neg hx, if_neg hx, List.append_nil]
      exact h.past x
  · intro noted hnoted
    rw [← List.append_assoc] at hnoted
    rcases List.mem_append.mp hnoted with hold | hnew
    · exact h.fits noted hold
    · obtain ⟨event, hevent, rfl⟩ := List.mem_map.mp hnew
      exact hfits event hevent

/-- A request moves on, and the registry takes nothing. -/
theorem Observed.advance
    (h : Observed crate defaultBuckets framework request start before log s) {i : Nat}
    {pc : RequestPc} {events : List Event} (hnone : ∀ event ∈ events, ∃ status elapsedMs,
      event = .ended status elapsedMs)
    (hlocals : LocalsFit framework request i pc)
    (hpast : PastFits (s.flag = true ∨ start.registry = none) (start.requests i = .returned)
      (historyOf log i ++ events) pc) :
    Observed crate defaultBuckets framework request start before
      (log ++ events.map (.request i)) (s.setRequest i pc) := by
  have hentries : entriesOf (before ++ (log ++ events.map (.request i))) =
      entriesOf (before ++ log) := by
    have hempty : entriesOf (events.map (.request i)) = [] := by
      rw [entriesOf, List.filterMap_eq_nil_iff]
      intro noted hnoted
      obtain ⟨event, hevent, rfl⟩ := List.mem_map.mp hnoted
      obtain ⟨status, elapsedMs, rfl⟩ := hnone event hevent
      rfl
    rw [← List.append_assoc, entriesOf_append (before ++ log), hempty, List.append_nil]
  apply h.move s.registry
  · rw [hentries]
    exact h.registry
  · rw [hentries]
    exact h.unset
  · exact hlocals
  · exact hpast
  · intro event hevent
    obtain ⟨status, elapsedMs, rfl⟩ := hnone event hevent
    exact trivial

/-- A request moves on, and nothing is noted. -/
theorem Observed.silent
    (h : Observed crate defaultBuckets framework request start before log s) {i : Nat}
    {pc : RequestPc} (hlocals : LocalsFit framework request i pc)
    (hpast : PastFits (s.flag = true ∨ start.registry = none) (start.requests i = .returned)
      (historyOf log i) pc) :
    Observed crate defaultBuckets framework request start before (log ++ [])
      (s.setRequest i pc) := by
  have hnone : ∀ event ∈ ([] : List Event), ∃ status elapsedMs,
      event = .ended status elapsedMs := by
    intro event hevent
    contradiction
  exact h.advance hnone hlocals (by rwa [List.append_nil])

/-- What the registry returns for an entry that fits. -/
theorem Observed.recorded
    (h : Observed crate defaultBuckets framework request start before log s)
    (hdefined : MetricsDefined crate defaultBuckets) {reg : PromRegistry} {i : Nat}
    {event : Event} {entry : MetricEntry} (hreg : s.registry = some reg)
    (hentry : event.entry? = some entry)
    (hfit : NotedFits framework request (.request i event)) :
    (update crate reg entry).1 = .recorded ∧ (update crate reg entry).2 =
      updates crate (PromRegistry.new defaultBuckets)
        (entriesOf (before ++ (log ++ [.request i event]))) := by
  have hentries : entriesOf (before ++ (log ++ [.request i event])) =
      entriesOf (before ++ log) ++ [entry] := by
    have hlast : entriesOf [.request i event] = [entry] := by
      rw [entriesOf, List.filterMap_cons, Noted.entry?, hentry]
      rfl
    rw [← List.append_assoc, entriesOf_append (before ++ log), hlast]
  obtain rfl := h.registry reg hreg
  refine ⟨?_, ?_⟩
  · have hall : ∀ noted ∈ before ++ (log ++ [.request i event]),
        NotedFits framework request noted := by
      intro noted hnoted
      rw [← List.append_assoc] at hnoted
      rcases List.mem_append.mp hnoted with hold | hnew
      · exact h.fits noted hold
      · rwa [List.mem_singleton.mp hnew]
    obtain ⟨hcounter, hhistogram⟩ := agreed_of_fits hdefined hall
    rw [hentries] at hcounter hhistogram
    cases event with
    | ended status elapsedMs => contradiction
    | counted status e =>
        obtain rfl := Option.some.inj hentry
        obtain ⟨now, m, p, -, rfl⟩ := hfit
        exact hcounter.recorded rfl
    | timed elapsedMs e =>
        obtain rfl := Option.some.inj hentry
        obtain ⟨now, m, p, -, rfl⟩ := hfit
        exact hhistogram.recorded rfl
  · rw [hentries, updates_append]
    rfl

/-- The registry takes the entry of a request. -/
theorem Observed.take
    (h : Observed crate defaultBuckets framework request start before log s)
    (hdefined : MetricsDefined crate defaultBuckets) {reg : PromRegistry} {i : Nat}
    {event : Event} {entry : MetricEntry} {next : RequestPc} (hreg : s.registry = some reg)
    (hentry : event.entry? = some entry)
    (hfit : NotedFits framework request (.request i event))
    (hlocals : LocalsFit framework request i next)
    (hpast : PastFits (s.flag = true ∨ start.registry = none) (start.requests i = .returned)
      (historyOf log i ++ [event]) next) :
    Observed crate defaultBuckets framework request start before (log ++ [.request i event])
      ({ s with registry := some (update crate reg entry).2 }.setRequest i
        (if (update crate reg entry).1 = Outcome.panicked then .panicked else next)) := by
  obtain ⟨hrecorded, hreg'⟩ := h.recorded hdefined hreg hentry hfit
  rw [if_neg (by rw [hrecorded]; exact Outcome.noConfusion)]
  apply @Observed.move _ _ _ _ _ _ _ _ h i next [event] (some (update crate reg entry).2)
  · intro reg' hreg''
    exact (Option.some.inj hreg'').symm.trans hreg'
  · intro hnone
    contradiction
  · exact hlocals
  · exact hpast
  · intro e he
    rwa [List.mem_singleton.mp he]

/-- A record call that skips has met no engine, or the flag. -/
theorem Observed.skips
    (h : Observed crate defaultBuckets framework request start before log s)
    (hskips : s.records = false) : s.flag = true ∨ start.registry = none := by
  cases hreg : s.registry with
  | none => exact Or.inr (h.unset hreg).2
  | some reg =>
      rw [HttpServer.records, hreg] at hskips
      exact Or.inl (by simpa using hskips)

/-- The labels of a request whose path and method are cut, or are not. -/
theorem labelled_of_countRequest {i : Nat} {now : Int} {path : String} {status : UInt16}
    (hpath : trackedPath (framework i) (request i) = some path) {entry : MetricEntry} :
    countRequest now (request i).method path status = some entry ↔
      ∃ m p, Labelled framework request i m p ∧ entry = counterEntry now m p status := by
  rw [countRequest_eq_some]
  simp only [Labelled, hpath, Option.bind_some, and_assoc]

theorem labelled_of_observeDuration {i : Nat} {now : Int} {path : String} {elapsedMs : F64}
    (hpath : trackedPath (framework i) (request i) = some path) {entry : MetricEntry} :
    observeDuration now (request i).method path elapsedMs = some entry ↔
      ∃ m p, Labelled framework request i m p ∧ entry = durationEntry now m p elapsedMs := by
  rw [observeDuration_eq_some]
  simp only [Labelled, hpath, Option.bind_some, and_assoc]

/-- One step of any request, or of the rest of the program. -/
theorem observed_step (h : Observed crate defaultBuckets framework request start before log s)
    (hdefined : MetricsDefined crate defaultBuckets) {action : HttpAction}
    (hothers : ∀ noted ∈ notes framework s action, ∀ entry, noted = .other entry →
      entry.name ≠ httpRequestsTotal ∧ entry.name ≠ httpRequestDuration)
    (hstep : httpStep crate defaultBuckets framework request s action = some t) :
    Observed crate defaultBuckets framework request start before
      (log ++ notes framework s action) t := by
  cases httpStep_cases hstep with
  | init hnone =>
      have hnotes : notes framework s .init = [] := rfl
      rw [hnotes, List.append_nil]
      obtain ⟨hempty, hstart⟩ := h.unset hnone
      refine ⟨?_, fun hunset => absurd hunset (Option.some_ne_none _), h.locals, h.past, h.fits⟩
      rintro reg hreg
      rw [hempty]
      exact (Option.some.inj hreg).symm
  | raiseFlag =>
      have hnotes : notes framework s .raiseFlag = [] := rfl
      rw [hnotes, List.append_nil]
      exact ⟨h.registry, h.unset, h.locals, fun i => (h.past i).mono fun _ => Or.inl rfl, h.fits⟩
  | @other entry reg hreg =>
      have hname := hothers (.other entry) (List.mem_singleton.mpr rfl) entry rfl
      have hentries : entriesOf (before ++ (log ++ [.other entry])) =
          entriesOf (before ++ log) ++ [entry] := by
        rw [← List.append_assoc, entriesOf_append (before ++ log)]
        rfl
      refine ⟨?_, fun hunset => absurd hunset (Option.some_ne_none _), h.locals, ?_, ?_⟩
      · rintro reg' hreg'
        rw [notes, hentries, updates_append, ← h.registry reg hreg]
        exact (Option.some.inj hreg').symm
      · intro i
        rw [notes, historyOf_append]
        exact (List.append_nil (historyOf log i)).symm ▸ h.past i
      · intro x hx
        rw [notes, ← List.append_assoc] at hx
        rcases List.mem_append.mp hx with hold | hnew
        · exact h.fits x hold
        · rw [List.mem_singleton.mp hnew]
          exact hname
  | @enter i path hpc hpath =>
      have hpast := h.past i
      rw [hpc] at hpast
      exact h.silent hpath hpast
  | @splitPath i hpc hpath =>
      have hpast := h.past i
      rw [hpc] at hpast
      refine h.silent ?_ (Or.inl hpast)
      rintro ⟨m, p, -, hp⟩
      rw [hpath] at hp
      contradiction
  | @abandon i path hpc =>
      have hpast := h.past i
      rw [hpc] at hpast
      exact h.silent trivial hpast
  | @respond i served path status elapsedMs hpc hstatus =>
      have hpast := h.past i
      have hpath := h.locals i
      rw [hpc] at hpast hpath
      have hnotes : notes framework s (.respond i served elapsedMs) =
          [Event.ended status elapsedMs].map (.request i) := by
        simp [notes, endingOf, hstatus]
      rw [hnotes]
      exact h.advance (by simp) hpath (by rw [hpast]; rfl)
  | @splitCounter i now path status elapsedMs hpc hentry =>
      have hpast := h.past i
      have hpath := h.locals i
      rw [hpc] at hpast hpath
      refine h.silent ?_ (Or.inr ⟨status, elapsedMs, hpast⟩)
      rintro ⟨m, p, hlabelled⟩
      have hsome : countRequest now (request i).method path status =
          some (counterEntry now m p status) :=
        (labelled_of_countRequest hpath).mpr ⟨m, p, hlabelled, rfl⟩
      rw [hentry] at hsome
      exact absurd hsome.symm (Option.some_ne_none _)
  | @loadCounter i now path status elapsedMs entry hpc hentry hrecords =>
      have hpast := h.past i
      have hpath := h.locals i
      rw [hpc] at hpast hpath
      obtain ⟨m, p, hfit⟩ := (labelled_of_countRequest hpath).mp hentry
      exact h.silent ⟨hpath, now, m, p, hfit⟩ hpast
  | @skipCounter i now path status elapsedMs entry hpc hentry hskips =>
      have hpast := h.past i
      have hpath := h.locals i
      rw [hpc] at hpast hpath
      obtain ⟨m, p, hfit, -⟩ := (labelled_of_countRequest hpath).mp hentry
      exact h.silent ⟨hpath, m, p, hfit⟩ ⟨status, entry, Or.inr ⟨h.skips hskips, hpast⟩⟩
  | @updateCounter i entry path status elapsedMs reg hpc hreg =>
      have hpast := h.past i
      have hlocals := h.locals i
      rw [hpc] at hpast hlocals
      obtain ⟨hpath, now, m, p, hlabelled, hentry⟩ := hlocals
      have hnotes : notes framework s (.updateCounter i) =
          [.request i (.counted status entry)] := by
        simp only [notes, hpc]
      rw [hnotes]
      refine h.take hdefined hreg rfl ⟨now, m, p, hlabelled, hentry⟩ ⟨hpath, m, p, hlabelled⟩
        ⟨status, entry, Or.inl ?_⟩
      rw [hpast]
      rfl
  | @splitHistogram i now path elapsedMs hpc hentry =>
      have hlocals := h.locals i
      rw [hpc] at hlocals
      obtain ⟨hpath, m, p, hlabelled⟩ := hlocals
      have hsome : observeDuration now (request i).method path elapsedMs =
          some (durationEntry now m p elapsedMs) :=
        (labelled_of_observeDuration hpath).mpr ⟨m, p, hlabelled, rfl⟩
      rw [hentry] at hsome
      exact absurd hsome.symm (Option.some_ne_none _)
  | @loadHistogram i now path elapsedMs entry hpc hentry hrecords =>
      have hpast := h.past i
      have hlocals := h.locals i
      rw [hpc] at hpast hlocals
      obtain ⟨m, p, hfit⟩ := (labelled_of_observeDuration hlocals.1).mp hentry
      exact h.silent ⟨hlocals.1, now, m, p, hfit⟩ hpast
  | @skipHistogram i now path elapsedMs entry hpc hentry hskips =>
      have hpast := h.past i
      rw [hpc] at hpast
      obtain ⟨status, e, hpast⟩ := hpast
      refine h.silent trivial
        (Or.inr ⟨status, elapsedMs, e, e, Or.inr ⟨h.skips hskips, ?_⟩⟩)
      rcases hpast with hpast | ⟨-, hpast⟩
      · rw [hpast]
        exact List.sublist_append_left _ [Event.timed elapsedMs e]
      · rw [hpast]
        exact List.sublist_append_left _ [Event.counted status e, Event.timed elapsedMs e]
  | @updateHistogram i entry path elapsedMs reg hpc hreg =>
      have hpast := h.past i
      have hlocals := h.locals i
      rw [hpc] at hpast hlocals
      obtain ⟨hpath, now, m, p, hlabelled, hentry⟩ := hlocals
      obtain ⟨status, e, hpast⟩ := hpast
      have hnotes : notes framework s (.updateHistogram i) =
          [.request i (.timed elapsedMs entry)] := by
        simp only [notes, hpc]
      rw [hnotes]
      refine h.take hdefined hreg rfl ⟨now, m, p, hlabelled, hentry⟩ trivial
        (Or.inr ⟨status, elapsedMs, e, entry, ?_⟩)
      rcases hpast with hpast | ⟨hskips, hpast⟩
      · rw [hpast]
        exact Or.inl rfl
      · rw [hpast]
        refine Or.inr ⟨hskips, ?_⟩
        exact List.Sublist.cons_cons _ (List.sublist_cons_self _ [Event.timed elapsedMs entry])

/-! ## The series -/

def counterLabels (method path : String) (status : UInt16) : List (String × String) :=
  [("method", method), ("path", path), ("status", toString status.toNat)]

def durationLabels (method path : String) : List (String × String) :=
  [("method", method), ("path", path)]

theorem counterLabels_inj {m m' p p' : String} {status status' : UInt16} :
    counterLabels m p status = counterLabels m' p' status' ↔
      m = m' ∧ p = p' ∧ status = status' := by
  constructor
  · intro h
    simp only [counterLabels, List.cons.injEq, Prod.mk.injEq, true_and, and_true] at h
    exact ⟨h.1, h.2.1, status_text_inj h.2.2⟩
  · rintro ⟨rfl, rfl, rfl⟩
    rfl

theorem Labelled.unique {i : Nat} {m m' p p' : String}
    (h : Labelled framework request i m p) :
    Labelled framework request i m' p' ↔ m = m' ∧ p = p' := by
  rw [Labelled, h.1, h.2, Option.some.injEq, Option.some.injEq]

/-- The samples of a series are the picked events, if they are so one by one. -/
theorem samplesOf_pick {β : Type} {f : Event → Option β} {g : Nat × β → Sample}
    {p : Nat × β → Prop} [DecidablePred p] {name : String} {labels : List (String × String)}
    (heach : ∀ noted ∈ log,
      (noted.entry?.filter fun entry => entry.name = name ∧ entry.labels = labels).map sampleOf =
        ((noted.pick f).filter fun x => p x).map g) :
    samplesOf (entriesOf log) name labels =
      ((pick f log).filter fun x => p x).map g := by
  rw [samplesOf, entriesOf, pick, List.filter_filterMap, List.filter_filterMap,
    List.map_filterMap, List.map_filterMap]
  exact List.filterMap_congr heach

/-- The counter's samples are the counted requests with these labels. -/
theorem samplesOf_counter (hfits : ∀ noted ∈ log, NotedFits framework request noted)
    (m p : String) (status : UInt16) :
    samplesOf (entriesOf log) httpRequestsTotal (counterLabels m p status) =
      ((pick Event.counted? log).filter fun c =>
        c.2 = status ∧ Labelled framework request c.1 m p).map fun _ => .incBy one := by
  apply samplesOf_pick
  intro noted hnoted
  have hfit := hfits noted hnoted
  cases noted with
  | other entry =>
      have hne : ¬ (entry.name = httpRequestsTotal ∧ entry.labels = counterLabels m p status) :=
        fun h => hfit.1 h.1
      simp only [Noted.entry?, Noted.pick, Option.filter_some, hne, decide_false,
        Bool.false_eq_true, if_false]
      rfl
  | request i event =>
      cases event with
      | ended st elapsedMs => rfl
      | timed elapsedMs entry =>
          obtain ⟨now, m', p', -, rfl⟩ := hfit
          have hne : ¬ ((durationEntry now m' p' elapsedMs).name = httpRequestsTotal ∧
              (durationEntry now m' p' elapsedMs).labels = counterLabels m p status) := by
            rintro ⟨hname, -⟩
            exact absurd hname (by decide : httpRequestDuration ≠ httpRequestsTotal)
          simp only [Noted.entry?, Event.entry?, Noted.pick, Event.counted?, Option.filter_some,
            hne, decide_false, Bool.false_eq_true, if_false]
          rfl
      | counted st entry =>
          obtain ⟨now, m', p', hlabelled, rfl⟩ := hfit
          have hiff : ((counterEntry now m' p' st).name = httpRequestsTotal ∧
              (counterEntry now m' p' st).labels = counterLabels m p status) ↔
                (st = status ∧ Labelled framework request i m p) := by
            rw [hlabelled.unique]
            exact (and_iff_right rfl).trans (counterLabels_inj.trans (by tauto))
          simp only [Noted.entry?, Event.entry?, Noted.pick, Event.counted?, Option.map_some,
            Option.filter_some, hiff]
          by_cases hmatch : st = status ∧ Labelled framework request i m p
          · rw [if_pos (decide_eq_true hmatch), if_pos (decide_eq_true hmatch)]
            rfl
          · rw [if_neg (by simpa using hmatch), if_neg (by simpa using hmatch)]
            rfl

/-- The histogram's samples are the timed requests with these labels. -/
theorem samplesOf_duration (hfits : ∀ noted ∈ log, NotedFits framework request noted)
    (m p : String) :
    samplesOf (entriesOf log) httpRequestDuration (durationLabels m p) =
      ((pick Event.timed? log).filter fun d => Labelled framework request d.1 m p).map
        fun d => .observe d.2 := by
  apply samplesOf_pick
  intro noted hnoted
  have hfit := hfits noted hnoted
  cases noted with
  | other entry =>
      have hne : ¬ (entry.name = httpRequestDuration ∧ entry.labels = durationLabels m p) :=
        fun h => hfit.2 h.1
      simp only [Noted.entry?, Noted.pick, Option.filter_some, hne, decide_false,
        Bool.false_eq_true, if_false]
      rfl
  | request i event =>
      cases event with
      | ended st elapsedMs => rfl
      | counted st entry =>
          obtain ⟨now, m', p', -, rfl⟩ := hfit
          have hne : ¬ ((counterEntry now m' p' st).name = httpRequestDuration ∧
              (counterEntry now m' p' st).labels = durationLabels m p) := by
            rintro ⟨hname, -⟩
            exact absurd hname (by decide : httpRequestsTotal ≠ httpRequestDuration)
          simp only [Noted.entry?, Event.entry?, Noted.pick, Event.timed?, Option.filter_some,
            hne, decide_false, Bool.false_eq_true, if_false]
          rfl
      | timed elapsedMs entry =>
          obtain ⟨now, m', p', hlabelled, rfl⟩ := hfit
          have hiff : ((durationEntry now m' p' elapsedMs).name = httpRequestDuration ∧
              (durationEntry now m' p' elapsedMs).labels = durationLabels m p) ↔
                Labelled framework request i m p := by
            rw [hlabelled.unique]
            refine (and_iff_right rfl).trans ?_
            simp [durationEntry, durationLabels]
          simp only [Noted.entry?, Event.entry?, Noted.pick, Event.timed?, Option.map_some,
            Option.filter_some, hiff]
          by_cases hmatch : Labelled framework request i m p
          · rw [if_pos (decide_eq_true hmatch), if_pos (decide_eq_true hmatch)]
            rfl
          · rw [if_neg (by simpa using hmatch), if_neg (by simpa using hmatch)]
            rfl

/-! ## Runs -/

def RequestPc.recording : RequestPc → Bool
  | .counting _ _ _ | .incrementing _ _ _ _ | .timing _ _ | .observing _ _ _ => true
  | _ => false

/-- No request is between its end and its last record call. -/
def AtRest (s : HttpServer) : Prop := ∀ i, (s.requests i).recording = false

theorem observed_boot :
    Observed crate defaultBuckets framework request .boot [] [] .boot :=
  ⟨fun _ h => absurd h.symm (Option.some_ne_none _), fun _ => ⟨rfl, rfl⟩, fun _ => trivial,
    fun _ => rfl, fun _ h => absurd h List.not_mem_nil⟩

/-- A state at rest is a place to start from. -/
theorem Observed.restart
    (h : Observed crate defaultBuckets framework request start before log s)
    (hrest : AtRest s) :
    Observed crate defaultBuckets framework request s (before ++ log) [] s := by
  have hnil : before ++ log ++ [] = before ++ log := List.append_nil _
  refine ⟨?_, ?_, h.locals, ?_, ?_⟩
  · rw [hnil]
    exact h.registry
  · rw [hnil]
    exact fun hnone => ⟨(h.unset hnone).1, hnone⟩
  · intro i
    have hi := hrest i
    cases hpc : s.requests i with
    | idle => exact rfl
    | awaiting path => exact rfl
    | abandoned => exact rfl
    | panicked => exact Or.inl rfl
    | returned => exact Or.inl ⟨rfl, rfl⟩
    | _ =>
        rw [hpc] at hi
        exact absurd hi.symm Bool.false_ne_true
  · rw [hnil]
    exact h.fits

/-- The rest of the program records nothing under the two names. -/
def OthersFit (log : List Noted) : Prop :=
  ∀ noted ∈ log, ∀ entry, noted = .other entry →
    entry.name ≠ httpRequestsTotal ∧ entry.name ≠ httpRequestDuration

variable (crate defaultBuckets framework request) in
/-- What is noted of a run. -/
def logOf (start : HttpServer) (actions : List HttpAction) : List Noted :=
  transcript (httpStep crate defaultBuckets framework request) (notes framework) start actions

theorem othersFit_logOf {actions : List HttpAction}
    (hothers : ∀ entry, .other entry ∈ actions →
      entry.name ≠ httpRequestsTotal ∧ entry.name ≠ httpRequestDuration) :
    OthersFit (logOf crate defaultBuckets framework request start actions) := by
  rintro noted hnoted entry rfl
  obtain ⟨u, action, haction, hmem⟩ := mem_transcript hnoted
  apply hothers
  cases action with
  | other e =>
      obtain rfl := Noted.other.inj (List.mem_singleton.mp hmem)
      exact haction
  | respond i served elapsedMs =>
      obtain ⟨status, -, heq⟩ := List.mem_map.mp hmem
      contradiction
  | updateCounter i =>
      simp only [notes] at hmem
      split at hmem
      · exact absurd (List.mem_singleton.mp hmem) (by simp)
      · contradiction
  | updateHistogram i =>
      simp only [notes] at hmem
      split at hmem
      · exact absurd (List.mem_singleton.mp hmem) (by simp)
      · contradiction
  | _ => contradiction

theorem observed_run (hdefined : MetricsDefined crate defaultBuckets)
    (hstart : Observed crate defaultBuckets framework request start before [] start)
    {actions : List HttpAction}
    (hothers : ∀ entry, .other entry ∈ actions →
      entry.name ≠ httpRequestsTotal ∧ entry.name ≠ httpRequestDuration)
    (h : exec (httpStep crate defaultBuckets framework request) start actions = some s) :
    Observed crate defaultBuckets framework request start before
      (logOf crate defaultBuckets framework request start actions) s := by
  have hkeep : ∀ log s action t,
      (OthersFit log → Observed crate defaultBuckets framework request start before log s) →
      httpStep crate defaultBuckets framework request s action = some t →
      OthersFit (log ++ notes framework s action) →
        Observed crate defaultBuckets framework request start before
          (log ++ notes framework s action) t := by
    intro log s action t hs hstep hall
    apply observed_step (hs fun noted hnoted => hall noted (List.mem_append_left _ hnoted))
      hdefined _ hstep
    exact fun noted hnoted => hall noted (List.mem_append_right _ hnoted)
  exact exec_history hkeep h (fun _ => hstart) (othersFit_logOf hothers)

/-- In a state at rest, with the engine up since the start, a request with labels was
counted and timed as it ended, if it ended since. -/
theorem Observed.complete
    (h : Observed crate defaultBuckets framework request start before log s)
    (hup : start.registry ≠ none) (hflag : s.flag = false) (hrest : AtRest s) {i : Nat}
    {m p : String} (hlabelled : Labelled framework request i m p) :
    (historyOf log i).filterMap Event.counted? = (historyOf log i).filterMap Event.status? ∧
      (historyOf log i).filterMap Event.timed? =
        (historyOf log i).filterMap Event.elapsed? := by
  have hskips : ¬ (s.flag = true ∨ start.registry = none) := by
    rintro (htrue | hnone)
    · rw [hflag] at htrue
      exact Bool.false_ne_true htrue
    · exact hup hnone
  have hpast := h.past i
  have hi := hrest i
  have hnil : ∀ {history : List Event}, history = [] →
      history.filterMap Event.counted? = history.filterMap Event.status? ∧
        history.filterMap Event.timed? = history.filterMap Event.elapsed? := by
    rintro history rfl
    exact ⟨rfl, rfl⟩
  cases hpc : s.requests i with
  | idle => rw [hpc] at hpast; exact hnil hpast
  | awaiting path => rw [hpc] at hpast; exact hnil hpast
  | abandoned => rw [hpc] at hpast; exact hnil hpast
  | panicked =>
      have hlocals := h.locals i
      rw [hpc] at hlocals
      exact absurd ⟨m, p, hlabelled⟩ hlocals
  | returned =>
      rw [hpc] at hpast
      rcases hpast with ⟨-, hpast⟩ | ⟨status, elapsedMs, e, e', hpast | ⟨hmissed, -⟩⟩
      · exact hnil hpast
      · rw [hpast]
        exact ⟨rfl, rfl⟩
      · exact absurd hmissed hskips
  | _ =>
      rw [hpc] at hi
      exact absurd hi.symm Bool.false_ne_true

theorem Observed.seriesLogs
    (h : Observed crate defaultBuckets framework request start before log s)
    (hdefined : MetricsDefined crate defaultBuckets) {reg : PromRegistry}
    (hreg : s.registry = some reg) (m p : String) :
    (∀ status, seriesLog reg httpRequestsTotal (counterLabels m p status) =
      ((pick Event.counted? (before ++ log)).filter fun c =>
        c.2 = status ∧ Labelled framework request c.1 m p).map fun _ => .incBy one) ∧
    seriesLog reg httpRequestDuration (durationLabels m p) =
      ((pick Event.timed? (before ++ log)).filter fun d =>
        Labelled framework request d.1 m p).map fun d => .observe d.2 := by
  obtain ⟨hcounter, hhistogram⟩ := agreed_of_fits hdefined h.fits
  obtain rfl := h.registry reg hreg
  constructor
  · intro status
    rw [hcounter.seriesLog, samplesOf_counter h.fits]
  · rw [hhistogram.seriesLog, samplesOf_duration h.fits]

end

section

variable (crate : PrometheusCrate) (defaultBuckets : List F64)
variable (framework : Nat → Framework) (request : Nat → HttpRequest)

/-- In every run each series holds one sample for each of the noted requests with its
labels, in their order; a request ends, is counted under the status it ended with and is
timed with the duration it took at most once each, in this order; and only a request
whose method or path cannot be cut panics. -/
theorem request_series_exact {actions : List HttpAction} {s : HttpServer} {reg : PromRegistry}
    (hdefined : MetricsDefined crate defaultBuckets)
    (hothers : ∀ entry, .other entry ∈ actions →
      entry.name ≠ httpRequestsTotal ∧ entry.name ≠ httpRequestDuration)
    (h : exec (httpStep crate defaultBuckets framework request) .boot actions = some s)
    (hreg : s.registry = some reg) :
    let log := logOf crate defaultBuckets framework request .boot actions
    (∀ m p status, seriesLog reg httpRequestsTotal (counterLabels m p status) =
      ((pick Event.counted? log).filter fun c =>
        c.2 = status ∧ Labelled framework request c.1 m p).map fun _ => .incBy one) ∧
    (∀ m p, seriesLog reg httpRequestDuration (durationLabels m p) =
      ((pick Event.timed? log).filter fun d =>
        Labelled framework request d.1 m p).map fun d => .observe d.2) ∧
    (∀ i, AtMostOnce (historyOf log i)) ∧
    ∀ i, s.requests i = .panicked → ¬ ∃ m p, Labelled framework request i m p := by
  intro log
  have hrun := observed_run hdefined observed_boot hothers h
  refine ⟨fun m p => (hrun.seriesLogs hdefined hreg m p).1,
    fun m p => (hrun.seriesLogs hdefined hreg m p).2, fun i => (hrun.past i).atMostOnce, ?_⟩
  intro i hpc
  have hlocals := hrun.locals i
  rwa [hpc] at hlocals

/-- Between two states at rest, with the engine up all the while, each series gains exactly
the requests that ended with its labels: the counter one for each with the status, the
histogram the durations of all. -/
theorem ended_requests_recorded {first second : List HttpAction} {mid s : HttpServer}
    {reg reg' : PromRegistry} (hdefined : MetricsDefined crate defaultBuckets)
    (hothers : ∀ entry, .other entry ∈ first ++ second →
      entry.name ≠ httpRequestsTotal ∧ entry.name ≠ httpRequestDuration)
    (hfirst : exec (httpStep crate defaultBuckets framework request) .boot first = some mid)
    (hsecond : exec (httpStep crate defaultBuckets framework request) mid second = some s)
    (hreg : mid.registry = some reg) (hreg' : s.registry = some reg') (hflag : s.flag = false)
    (hmid : AtRest mid) (hrest : AtRest s) (m p : String) :
    let log := logOf crate defaultBuckets framework request mid second
    (∀ status, (seriesLog reg' httpRequestsTotal (counterLabels m p status)).length =
      (seriesLog reg httpRequestsTotal (counterLabels m p status)).length +
        ((pick Event.status? log).filter fun e =>
          e.2 = status ∧ Labelled framework request e.1 m p).length) ∧
    (seriesLog reg' httpRequestDuration (durationLabels m p)).Perm
      (seriesLog reg httpRequestDuration (durationLabels m p) ++
        ((pick Event.elapsed? log).filter fun e =>
          Labelled framework request e.1 m p).map fun e => .observe e.2) := by
  intro log
  have hbefore := observed_run hdefined observed_boot
    (fun entry hentry => hothers entry (List.mem_append_left _ hentry)) hfirst
  have hrun := observed_run hdefined (hbefore.restart hmid)
    (fun entry hentry => hothers entry (List.mem_append_right _ hentry)) hsecond
  have hup : mid.registry ≠ none := by
    rw [hreg]
    exact Option.some_ne_none _
  obtain ⟨hcounter, hhistogram⟩ := hbefore.seriesLogs hdefined hreg m p
  obtain ⟨hcounter', hhistogram'⟩ := hrun.seriesLogs hdefined hreg' m p
  have hpick : ∀ {β : Type} (f : Event → Option β) (first second : List Noted),
      pick f (first ++ second) = pick f first ++ pick f second :=
    fun f first second => List.filterMap_append
  constructor
  · intro status
    have hperm := @perm_filter_of_parts _ _ (pick Event.counted? log) (pick Event.status? log)
      (fun e => decide (e.2 = status ∧ Labelled framework request e.1 m p)) ?_
    · rw [hcounter', hcounter, hpick, List.filter_append, List.map_append, List.length_append,
        Nat.add_left_cancel_iff, List.length_map]
      exact hperm.length_eq
    · intro e he
      obtain ⟨-, hlabelled⟩ := of_decide_eq_true he
      rw [pick_of_request, pick_of_request, (hrun.complete hup hflag hrest hlabelled).1]
  · have hperm := @perm_filter_of_parts _ _ (pick Event.timed? log) (pick Event.elapsed? log)
      (fun e => decide (Labelled framework request e.1 m p)) ?_
    · rw [hhistogram', hhistogram, hpick, List.filter_append, List.map_append]
      exact (hperm.map _).append_left _
    · intro e he
      rw [pick_of_request, pick_of_request,
        (hrun.complete hup hflag hrest (of_decide_eq_true he)).2]

end

/-! ## A request of a route -/

def userRequest (_ : Nat) : HttpRequest := ⟨"GET", some "/users/:id", "/users/7"⟩

/-- It ends in a `200`, and another metric is recorded between its two samples. -/
def servedRun : List HttpAction :=
  [.enter 0, .respond 0 (.response 200) one, .loadCounter 0 0, .updateCounter 0,
    .other (requestsTotal []), .loadHistogram 0 1, .updateHistogram 0]

theorem othersFit_servedRun (entry : MetricEntry) (h : .other entry ∈ [.init] ++ servedRun) :
    entry.name ≠ httpRequestsTotal ∧ entry.name ≠ httpRequestDuration := by
  obtain rfl : entry = requestsTotal [] := by simpa [servedRun] using h
  decide

theorem servedRun_series :
    ∃ s reg, exec (httpStep permissiveCrate [] (fun _ => .axum) userRequest) .boot
        ([.init] ++ servedRun) = some s ∧ s.registry = some reg ∧
      seriesLog reg httpRequestsTotal (counterLabels "GET" "/users/:id" 200) =
        [.incBy one] := by
  refine ⟨_, _, rfl, rfl, ?_⟩
  rw [(request_series_exact permissiveCrate [] (fun _ => .axum) userRequest ⟨rfl, rfl, rfl, rfl⟩
    othersFit_servedRun rfl rfl).1]
  rfl

theorem servedRun_gains :
    ∃ mid s reg reg', exec (httpStep permissiveCrate [] (fun _ => .axum) userRequest) .boot
        [.init] = some mid ∧
      exec (httpStep permissiveCrate [] (fun _ => .axum) userRequest) mid servedRun = some s ∧
      mid.registry = some reg ∧ s.registry = some reg' ∧
      (seriesLog reg' httpRequestsTotal (counterLabels "GET" "/users/:id" 200)).length =
        (seriesLog reg httpRequestsTotal (counterLabels "GET" "/users/:id" 200)).length + 1 := by
  have hothers : ∀ a b c d e f x, x ≠ 0 →
      Function.update (Function.update (Function.update (Function.update (Function.update
        (Function.update (fun _ => RequestPc.idle) 0 a) 0 b) 0 c) 0 d) 0 e) 0 f x = .idle := by
    intro a b c d e f x hx
    simp only [Function.update_of_ne hx]
  refine ⟨_, _, _, _, rfl, rfl, rfl, rfl, ?_⟩
  refine ((ended_requests_recorded permissiveCrate [] (fun _ => .axum) userRequest
    ⟨rfl, rfl, rfl, rfl⟩ othersFit_servedRun rfl rfl rfl rfl rfl (fun _ => rfl) ?_ "GET" "/users/:id").1 200).trans ?_
  · intro i
    by_cases hzero : i = 0
    · rw [hzero]
      rfl
    · exact congrArg RequestPc.recording (hothers _ _ _ _ _ _ i hzero)
  · rfl
end Tonggeret.Middleware
