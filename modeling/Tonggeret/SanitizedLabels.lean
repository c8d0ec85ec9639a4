import Tonggeret.Prometheus.LabelKeys
import Tonggeret.Sanitize
import Tonggeret.Storage.ValueRoundTrip

/-!
# Sanitized labels at the two backends

The registry asks for distinct label names of the label grammar and reserves `le` for
histogram buckets; the keyspace keeps one member for each key of a label object.
Sanitizing keeps a colon, does not know of `le`, and masks different characters alike,
so whether its keys are accepted is decided by the raw ones.
-/

namespace Tonggeret

open Tonggeret.Lib Tonggeret.Prometheus Tonggeret.Storage

/-- A character of a label name at position `i`: `[a-zA-Z_]`, then `[a-zA-Z0-9_]`. -/
def isLabelChar (i : Nat) (c : Char) : Bool :=
  if i = 0 then c.isAlpha || c == '_' else c.isAlphanum || c == '_'

/-- `[a-zA-Z_][a-zA-Z0-9_]*`. -/
def isLabelName (name : String) : Bool :=
  !name.isEmpty && (name.toList.mapIdx isLabelChar).all id

/-- The label names that a collector of this kind can have. -/
structure AcceptableLabels (kind : MetricType) (names : List String) : Prop where
  distinct : names.Nodup
  grammar : ∀ name ∈ names, isLabelName name = true
  noBucket : kind = .histogram → "le" ∉ names

/-- The crate refuses neither a vector of these names nor a child of it. -/
def Observable (crate : PrometheusCrate) (kind : MetricType) (opts : Opts)
    (names : List String) : Prop :=
  crate.vecError kind opts names = none ∧ crate.childError kind opts names = none

/-- Acceptable label names are never why the crate refuses a vector or its children. -/
def AcceptsLabelNames (crate : PrometheusCrate) : Prop :=
  ∀ kind opts names, AcceptableLabels kind names →
    (Observable crate kind opts names ↔ Observable crate kind opts [])

/-- No collector of any kind is registered or kept under the name. -/
def Fresh (reg : PromRegistry) (name : String) : Prop :=
  reg.registry.get? name = none ∧ ∀ kind, (reg.vecs kind).get? name = none

/-- The entry is observed and stored with all of its labels. -/
structure AcceptedByBoth (crate : PrometheusCrate) (entry : MetricEntry) : Prop where
  labels : AcceptableLabels entry.metricType (labelNames entry)
  recorded : ∀ reg, Fresh reg entry.name →
    Observable crate entry.metricType (vecOpts reg entry.metricType entry.name) [] →
      (update crate reg entry).1 = .recorded
  stored : ∃ members, labelsObject entry = .object members ∧
    members.length = entry.labels.length

/-! ## Raw keys -/

/-- The raw keys that are kept, trimmed, up to the characters that are cut off. -/
def keptKeys (labels : List (String × String)) : List (List Char) :=
  (keptLabels labels).map fun label => (trim label.1).toList.take maxKey

/-- Masking does not tell the characters apart at position `i`. -/
def Confused (i : Nat) (c d : Char) : Prop :=
  c = d ∨ (c = '_' ∨ isNameChar i c = false) ∧ (d = '_' ∨ isNameChar i d = false)

def LookAlike (k l : List Char) : Prop :=
  k.length = l.length ∧ ∀ i c d, k[i]? = some c → l[i]? = some d → Confused i c d

/-- The raw keys stay distinct and acceptable when they are masked. -/
structure KeysFit (kind : MetricType) (labels : List (String × String)) : Prop where
  noColon : ∀ key ∈ keptKeys labels, ':' ∉ key
  noBucket : kind = .histogram → ['l', 'e'] ∉ keptKeys labels
  noLookAlike : (keptKeys labels).Pairwise fun k l => ¬ LookAlike k l

theorem maskChar_eq_iff {i : Nat} {c d : Char} :
    maskChar i c = maskChar i d ↔ Confused i c d := by
  rw [maskChar, maskChar, Confused]
  cases hc : isNameChar i c with
  | true =>
      cases hd : isNameChar i d with
      | true => grind
      | false => grind
  | false =>
      cases hd : isNameChar i d with
      | true => grind
      | false => grind

theorem mapIdx_maskChar_eq_iff {k l : List Char} :
    k.mapIdx maskChar = l.mapIdx maskChar ↔ LookAlike k l := by
  constructor
  · intro h
    refine ⟨by simpa using congrArg List.length h, ?_⟩
    intro i c d hc hd
    have hi := congrArg (fun m : List Char => m[i]?) h
    simp only [List.getElem?_mapIdx, hc, hd, Option.map_some, Option.some.injEq] at hi
    exact maskChar_eq_iff.mp hi
  · rintro ⟨hlength, hchars⟩
    apply List.ext_getElem
    · simpa using hlength
    · intro i hi hj
      rw [List.length_mapIdx] at hi hj
      rw [List.getElem_mapIdx, List.getElem_mapIdx]
      exact maskChar_eq_iff.mpr
        (hchars i _ _ (List.getElem?_eq_getElem hi) (List.getElem?_eq_getElem hj))

theorem take_mapIdx {α β : Type} (f : Nat → α → β) (l : List α) (n : Nat) :
    (l.mapIdx f).take n = (l.take n).mapIdx f := by
  apply List.ext_getElem?
  intro i
  rw [List.getElem?_mapIdx, List.getElem?_take, List.getElem?_take]
  split
  · rw [List.getElem?_mapIdx]
  · rfl

theorem cleanKey_eq (key : String) :
    cleanKey key = String.ofList (((trim key).toList.take maxKey).mapIdx maskChar) := by
  rw [cleanKey, take_mapIdx]

theorem isNameChar_eq (i : Nat) (c : Char) :
    isNameChar i c = (isLabelChar i c || c == ':') := by
  rw [isNameChar, isLabelChar]
  split <;> rfl

/-- Masked characters are label characters, but for the colon. -/
theorem isLabelChar_maskChar {i : Nat} {c : Char} :
    isLabelChar i (maskChar i c) = true ↔ c ≠ ':' := by
  have hcolon : isLabelChar i ':' = false := by
    rw [isLabelChar]
    split <;> rfl
  have hunderscore : isLabelChar i '_' = true := by
    rw [isLabelChar]
    split <;> rfl
  rw [maskChar, isNameChar_eq]
  by_cases hc : c = ':'
  · subst hc
    simp [hcolon]
  · cases hlabel : isLabelChar i c with
    | true => simp [hlabel, hc]
    | false => simp [hunderscore, hc]

theorem isLabelName_mask {key : List Char} (hne : key ≠ []) :
    isLabelName (String.ofList (key.mapIdx maskChar)) = true ↔ ':' ∉ key := by
  have hnonempty : (String.ofList (key.mapIdx maskChar)).isEmpty = false := by
    simpa using hne
  rw [isLabelName, hnonempty, String.toList_ofList, Bool.not_false, Bool.true_and,
    List.all_eq_true]
  constructor
  · intro hall hmem
    obtain ⟨i, hi, hcolon⟩ := List.mem_iff_getElem.mp hmem
    have hlabel := hall (isLabelChar i (maskChar i key[i]))
      (List.mem_mapIdx.mpr ⟨i, by simpa using hi, by rw [List.getElem_mapIdx]⟩)
    exact isLabelChar_maskChar.mp hlabel hcolon
  · intro hcolon b hb
    obtain ⟨i, hi, rfl⟩ := List.mem_mapIdx.mp hb
    rw [List.getElem_mapIdx]
    apply isLabelChar_maskChar.mpr
    intro heq
    exact hcolon (heq ▸ List.getElem_mem _)

/-- Only `le` is masked to `le`. -/
theorem mask_eq_le {key : List Char} :
    String.ofList (key.mapIdx maskChar) = "le" ↔ key = ['l', 'e'] := by
  have hle : "le" = String.ofList (['l', 'e'].mapIdx maskChar) := rfl
  rw [hle, String.ofList_inj, mapIdx_maskChar_eq_iff]
  constructor
  · rintro ⟨hlength, hchars⟩
    match key with
    | [c, d] =>
        have hc : c = 'l' := by
          rcases hchars 0 c 'l' rfl rfl with h | ⟨-, h | h⟩
          · exact h
          · contradiction
          · contradiction
        have hd : d = 'e' := by
          rcases hchars 1 d 'e' rfl rfl with h | ⟨-, h | h⟩
          · exact h
          · contradiction
          · contradiction
        rw [hc, hd]
  · rintro rfl
    refine ⟨rfl, fun i c d hc hd => Or.inl ?_⟩
    exact Option.some.inj (hc.symm.trans hd)

theorem ne_nil_of_mem_keptKeys {labels : List (String × String)} {key : List Char}
    (h : key ∈ keptKeys labels) : key ≠ [] := by
  obtain ⟨label, hlabel, rfl⟩ := List.mem_map.mp h
  have hkept := (List.mem_filter.mp (List.mem_of_mem_take hlabel)).2
  intro hnil
  rcases List.take_eq_nil_iff.mp hnil with hzero | hempty
  · exact absurd hzero (by decide)
  · rw [String.toList_eq_nil_iff] at hempty
    rw [hempty] at hkept
    contradiction

theorem map_fst_sanitizeLabels {labels pairs : List (String × String)}
    (h : sanitizeLabels labels = some pairs) :
    pairs.map Prod.fst = (keptLabels labels).map fun label => cleanKey label.1 := by
  have heq : List.Forall₂ (· = ·) (pairs.map Prod.fst)
      ((keptLabels labels).map fun label => cleanKey label.1) := by
    rw [List.forall₂_map_left_iff, List.forall₂_map_right_iff]
    exact (sanitizeLabels_eq_some.mp h).flip.imp fun _ _ hpair => hpair.1
  rwa [List.forall₂_eq_eq_eq] at heq

/-- The label names of an entry are its raw keys, masked. -/
theorem labelNames_new {now : Int} {name : String} {value : F64} {kind : MetricType}
    {labels : List (String × String)} {entry : MetricEntry}
    (h : MetricEntry.new now name value kind labels = some entry) :
    entry.metricType = kind ∧
      labelNames entry = (keptKeys labels).map fun key => String.ofList (key.mapIdx maskChar) := by
  obtain ⟨pairs, hpairs, hentry⟩ := Option.bind_eq_some_iff.mp h
  obtain rfl := Option.some.inj hentry
  refine ⟨rfl, ?_⟩
  rw [labelNames, map_fst_sanitizeLabels hpairs, keptKeys, List.map_map]
  exact List.map_congr_left fun label _ => cleanKey_eq label.1

/-- Masked keys are acceptable exactly if the raw keys fit. -/
theorem acceptableLabels_iff {kind : MetricType} {labels : List (String × String)} :
    AcceptableLabels kind
        ((keptKeys labels).map fun key => String.ofList (key.mapIdx maskChar)) ↔
      KeysFit kind labels := by
  have hdistinct : ((keptKeys labels).map fun key => String.ofList (key.mapIdx maskChar)).Nodup ↔
      (keptKeys labels).Pairwise fun k l => ¬ LookAlike k l := by
    rw [List.Nodup, List.pairwise_map]
    apply List.Pairwise.iff
    intro k l
    rw [ne_eq, String.ofList_inj, mapIdx_maskChar_eq_iff]
  have hbucket : "le" ∈ (keptKeys labels).map (fun key => String.ofList (key.mapIdx maskChar)) ↔
      ['l', 'e'] ∈ keptKeys labels := by
    rw [List.mem_map]
    constructor
    · rintro ⟨key, hkey, heq⟩
      rwa [← mask_eq_le.mp heq]
    · exact fun h => ⟨_, h, mask_eq_le.mpr rfl⟩
  constructor
  · intro h
    refine ⟨?_, fun hkind hmem => h.noBucket hkind (hbucket.mpr hmem), hdistinct.mp h.distinct⟩
    intro key hkey
    exact (isLabelName_mask (ne_nil_of_mem_keptKeys hkey)).mp
      (h.grammar _ (List.mem_map_of_mem hkey))
  · intro h
    refine ⟨hdistinct.mpr h.noLookAlike, ?_,
      fun hkind hmem => h.noBucket hkind (hbucket.mp hmem)⟩
    intro name hname
    obtain ⟨key, hkey, rfl⟩ := List.mem_map.mp hname
    exact (isLabelName_mask (ne_nil_of_mem_keptKeys hkey)).mpr (h.noColon key hkey)

/-! ## The two backends -/

/-- A fresh name whose labels are acceptable gets a collector and its first sample. -/
theorem update_of_fresh {crate : PrometheusCrate} (hcrate : AcceptsLabelNames crate)
    {entry : MetricEntry} (hlabels : AcceptableLabels entry.metricType (labelNames entry))
    {reg : PromRegistry} (hfresh : Fresh reg entry.name)
    (hopts : Observable crate entry.metricType
      (vecOpts reg entry.metricType entry.name) []) :
    (update crate reg entry).1 = .recorded := by
  have hname : (vecOpts reg entry.metricType entry.name).name = entry.name := by
    cases entry.metricType <;> rfl
  obtain ⟨hvec, hchild⟩ : Observable crate entry.metricType
      (vecOpts reg entry.metricType entry.name) (entry.labels.map Prod.fst) :=
    (hcrate _ _ _ hlabels).mpr hopts
  rw [update_eq]
  simp only [ensure, fastPath, slowPath, hfresh.2, hvec, PromRegistry.register, hname, hfresh.1]
  have hkeys : Collector.labelNames ⟨reg.created, entry.metricType,
      vecOpts reg entry.metricType entry.name, entry.labels.map Prod.fst⟩ =
        labelNames entry := rfl
  obtain ⟨series, hseries, -⟩ := withLabelValues_of_labelNames crate entry hchild hkeys
  simp only [observe, hseries]

/-- A sanitized entry is accepted by both backends exactly if its raw keys fit. -/
theorem accepted_by_both_iff (crate : PrometheusCrate) (hcrate : AcceptsLabelNames crate)
    {now : Int} {name : String} {value : F64} {kind : MetricType}
    {labels : List (String × String)} {entry : MetricEntry}
    (hnew : MetricEntry.new now name value kind labels = some entry) :
    AcceptedByBoth crate entry ↔ KeysFit kind labels := by
  obtain ⟨hkind, hnames⟩ := labelNames_new hnew
  rw [← acceptableLabels_iff, ← hnames, ← hkind]
  constructor
  · exact fun h => h.labels
  · intro hlabels
    refine ⟨hlabels, fun reg hfresh hopts => update_of_fresh hcrate hlabels hfresh hopts, ?_⟩
    obtain ⟨members, hmembers, hperm⟩ := labelsObject_perm hlabels.distinct
    exact ⟨members, hmembers, by rw [hperm.length_eq, List.length_map]⟩

/-! ## Keys that fit, and keys that do not -/

/-- A crate that checks label names only: a vector is refused for ill-formed or repeated
ones, and a child of a histogram for the label `le`. -/
def labelChecks : PrometheusCrate where
  vecError _ _ names :=
    if names.Nodup ∧ ∀ name ∈ names, isLabelName name = true then none
    else some "invalid label names"
  childError kind _ names :=
    if kind = .histogram ∧ "le" ∈ names then
      some "`le` is not allowed as label name in histograms"
    else none

theorem labelChecks_acceptsLabelNames : AcceptsLabelNames labelChecks := by
  intro kind opts names h
  have hnames : Observable labelChecks kind opts names :=
    ⟨if_pos ⟨h.distinct, h.grammar⟩, if_neg fun hle => h.noBucket hle.1 hle.2⟩
  have hnone : Observable labelChecks kind opts [] := by
    constructor <;> simp [labelChecks]
  exact iff_of_true hnames hnone

def routeLabels : List (String × String) := [(" http.method ", "GET"), ("status", "200")]

theorem route_accepted_by_both :
    AcceptedByBoth labelChecks
      ⟨0, "hits", F64.zero, .histogram, [("http_method", "GET"), ("status", "200")]⟩ := by
  have hfit : KeysFit .histogram routeLabels := by
    refine ⟨by decide +kernel, fun _ => by decide +kernel, ?_⟩
    have hkeys : keptKeys routeLabels = ["http.method".toList, "status".toList] := by
      decide +kernel
    rw [hkeys, List.pairwise_pair]
    rintro ⟨hlength, -⟩
    exact absurd hlength (by decide)
  have hnew : MetricEntry.new 0 "hits" F64.zero .histogram routeLabels =
      some ⟨0, "hits", F64.zero, .histogram, [("http_method", "GET"), ("status", "200")]⟩ := by
    decide +kernel
  exact (accepted_by_both_iff labelChecks labelChecks_acceptsLabelNames hnew).mpr hfit

/-- Two keys that differ in a masked character become one, a colon is kept, and `le` is a
key like any other: each time the entry is built, and its first sample is dropped or, for
`le`, panics. -/
theorem sanitized_labels_rejected :
    (∃ entry, MetricEntry.new 0 "hits" F64.zero .counter [("a.b", "1"), ("a-b", "2")] =
        some entry ∧ ¬ AcceptedByBoth labelChecks entry ∧
      (update labelChecks (PromRegistry.new []) entry).1 = .dropped) ∧
    (∃ entry, MetricEntry.new 0 "hits" F64.zero .counter [("a:b", "1")] = some entry ∧
      ¬ AcceptedByBoth labelChecks entry ∧
      (update labelChecks (PromRegistry.new []) entry).1 = .dropped) ∧
    ∃ entry, MetricEntry.new 0 "hits" F64.zero .histogram [("le", "1")] = some entry ∧
      ¬ AcceptedByBoth labelChecks entry ∧
      (update labelChecks (PromRegistry.new []) entry).1 = .panicked := by
  refine ⟨⟨⟨0, "hits", F64.zero, .counter, [("a_b", "1"), ("a_b", "2")]⟩, by decide +kernel, ?_,
      by decide +kernel⟩,
    ⟨⟨0, "hits", F64.zero, .counter, [("a:b", "1")]⟩, by decide +kernel, ?_, by decide +kernel⟩,
    ⟨⟨0, "hits", F64.zero, .histogram, [("le", "1")]⟩, by decide +kernel, ?_,
      by decide +kernel⟩⟩
  · intro h
    exact absurd h.labels.distinct (by decide +kernel)
  · intro h
    exact absurd (h.labels.grammar "a:b" (by simp [labelNames])) (by decide +kernel)
  · intro h
    exact h.labels.noBucket rfl (by simp [labelNames])

end Tonggeret
