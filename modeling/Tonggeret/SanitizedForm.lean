import Tonggeret.Sanitize

/-!
# Sanitized text as a normal form

The metric-name grammar is the image of `sanitizeMetricName` and its fixed points; so it
is for labels, where the grammar, the two bounds and the cap together say what sanitizing
leaves alone.
-/

namespace Tonggeret

open Tonggeret.Lib

/-- `[a-zA-Z_:][a-zA-Z0-9_:]*`. -/
def isMetricName (name : String) : Bool :=
  match name.toList with
  | [] => false
  | c :: chars =>
      (c.isAlpha || c == '_' || c == ':') &&
        chars.all fun c => c.isAlphanum || c == '_' || c == ':'

/-- What sanitizing leaves as it is. -/
structure IsSanitized (labels : List (String × String)) : Prop where
  capped : labels.length ≤ maxPairs
  keys : ∀ label ∈ labels, isMetricName label.1 = true ∧ label.1.utf8ByteSize ≤ maxKey
  values : ∀ label ∈ labels, label.2.utf8ByteSize ≤ maxVal

/-! ## Names -/

/-- The grammar, position by position. -/
def NameChars (chars : List Char) : Prop :=
  ∀ i c, chars[i]? = some c → isNameChar i c = true

theorem isMetricName_iff {name : String} :
    isMetricName name = true ↔ name.toList ≠ [] ∧ NameChars name.toList := by
  unfold isMetricName NameChars
  cases name.toList with
  | nil => simp
  | cons c chars =>
      rw [Bool.and_eq_true, List.all_eq_true]
      constructor
      · intro h
        refine ⟨List.cons_ne_nil c chars, ?_⟩
        intro i d hd
        cases i with
        | zero =>
            rw [List.getElem?_cons_zero, Option.some.injEq] at hd
            subst hd
            exact h.1
        | succ i =>
            rw [List.getElem?_cons_succ] at hd
            exact h.2 d (List.mem_of_getElem? hd)
      · intro h
        refine ⟨h.2 0 c List.getElem?_cons_zero, ?_⟩
        intro d hd
        have hi := List.getElem?_of_mem hd
        cases hi with
        | intro i hi =>
            have hd := h.2 (i + 1) d (by rw [List.getElem?_cons_succ, hi])
            exact hd

theorem isNameChar_maskChar (i : Nat) (c : Char) : isNameChar i (maskChar i c) = true := by
  unfold maskChar
  split
  · assumption
  · unfold isNameChar
    split <;> rfl

theorem nameChars_mapIdx (chars : List Char) : NameChars (chars.mapIdx maskChar) := by
  intro i c hc
  rw [List.getElem?_mapIdx, Option.map_eq_some_iff] at hc
  obtain ⟨d, -, hd⟩ := hc
  rw [← hd]
  exact isNameChar_maskChar i d

theorem mapIdx_maskChar {chars : List Char} (h : NameChars chars) :
    chars.mapIdx maskChar = chars := by
  rw [List.mapIdx_eq_iff]
  intro i
  cases hc : chars[i]? with
  | none => rfl
  | some c =>
      have hkept : maskChar i c = c := if_pos (h i c hc)
      rw [Option.map_some, hkept]

theorem NameChars.take {chars : List Char} (h : NameChars chars) (n : Nat) :
    NameChars (chars.take n) := by
  intro i c hc
  rw [List.getElem?_take] at hc
  split at hc
  · exact h i c hc
  · contradiction

theorem isMetricName_sanitizeMetricName (name : String) :
    isMetricName (sanitizeMetricName name) = true := by
  by_cases hempty : (name.toList.mapIdx maskChar).isEmpty = true
  · rw [sanitizeMetricName, if_pos hempty]
    rfl
  · rw [sanitizeMetricName, if_neg hempty, isMetricName_iff, String.toList_ofList]
    refine ⟨?_, nameChars_mapIdx name.toList⟩
    intro hnil
    rw [hnil] at hempty
    exact hempty rfl

theorem sanitizeMetricName_of_isMetricName {name : String} (h : isMetricName name = true) :
    sanitizeMetricName name = name := by
  rw [isMetricName_iff] at h
  unfold sanitizeMetricName
  rw [mapIdx_maskChar h.2, if_neg (by simpa using h.1)]
  exact String.ofList_toList

/-! ## Labels -/

theorem isNameChar_bounds {i : Nat} {c : Char} (h : isNameChar i c = true) :
    48 ≤ c.val.toNat ∧ c.val.toNat ≤ 122 := by
  have hclass : c.isAlphanum = true ∨ c = '_' ∨ c = ':' := by
    unfold isNameChar at h
    split at h
    · rw [Bool.or_eq_true, Bool.or_eq_true, beq_iff_eq, beq_iff_eq, or_assoc] at h
      exact h.imp_left fun hletter => isAlphanum_iff.mpr (Or.inl hletter)
    · rwa [Bool.or_eq_true, Bool.or_eq_true, beq_iff_eq, beq_iff_eq, or_assoc] at h
  rcases hclass with hclass | rfl | rfl
  · exact isAlphanum_bounds hclass
  · decide
  · decide

theorem not_isWhitespace_of_isNameChar {i : Nat} {c : Char} (h : isNameChar i c = true) :
    isWhitespace c = false := by
  have hbounds := isNameChar_bounds h
  unfold isWhitespace
  simp only [Bool.or_eq_false_iff, Bool.and_eq_false_iff, decide_eq_false_iff_not,
    beq_eq_false_iff_ne]
  omega

/-- A name has nothing to trim. -/
theorem trim_of_isMetricName {name : String} (h : isMetricName name = true) :
    trim name = name := by
  rw [isMetricName_iff] at h
  have hspace : ∀ c ∈ name.toList, isWhitespace c = false := by
    intro c hc
    obtain ⟨i, hi⟩ := List.getElem?_of_mem hc
    exact not_isWhitespace_of_isNameChar (h.2 i c hi)
  have hleft : name.toList.dropWhile isWhitespace = name.toList := by
    rw [List.dropWhile_eq_self_iff]
    intro hpos
    rw [hspace _ (List.getElem_mem hpos)]
    exact Bool.false_ne_true
  have hright : name.toList.rdropWhile isWhitespace = name.toList := by
    rw [List.rdropWhile_eq_self_iff]
    intro hne
    rw [hspace _ (List.getLast_mem hne)]
    exact Bool.false_ne_true
  rw [trim, hleft, hright, String.ofList_toList]

theorem isMetricName_cleanKey {key : String} (h : (trim key).isEmpty = false) :
    isMetricName (cleanKey key) = true := by
  rw [isMetricName_iff, cleanKey, String.toList_ofList]
  constructor
  · have hne : trim key ≠ "" := by simpa using h
    simpa [maxKey] using hne
  · exact (nameChars_mapIdx (trim key).toList).take maxKey

theorem utf8ByteSize_cleanKey_le (key : String) : (cleanKey key).utf8ByteSize ≤ maxKey := by
  have hascii : ∀ c ∈ ((trim key).toList.mapIdx maskChar).take maxKey, c.utf8Size = 1 :=
    fun c hc => mapIdx_maskChar_ascii c (List.mem_of_mem_take hc)
  rw [cleanKey, String.utf8ByteSize_ofList, utf8Len_of_ascii hascii]
  exact List.length_take_le maxKey _

theorem cleanKey_of_isMetricName {key : String} (h : isMetricName key = true)
    (hsize : key.utf8ByteSize ≤ maxKey) : cleanKey key = key := by
  have hlength : key.toList.length ≤ maxKey := by
    have hle := length_le_utf8ByteSize key
    rw [String.length_toList]
    omega
  rw [cleanKey, trim_of_isMetricName h, mapIdx_maskChar (isMetricName_iff.mp h).2,
    List.take_of_length_le hlength, String.ofList_toList]

theorem truncateLonger_of_le {max : Nat} {s : String} (h : s.utf8ByteSize ≤ max) :
    truncateLonger max s = some s := if_neg (Nat.not_lt_of_le h)

theorem utf8ByteSize_truncateLonger {max : Nat} {s t : String}
    (h : truncateLonger max s = some t) : t.utf8ByteSize ≤ max := by
  by_cases hlong : s.utf8ByteSize > max
  · rw [truncateLonger, if_pos hlong, truncate_of_lt hlong, sliceTo_eq_some] at h
    exact h.2.le
  · rw [truncateLonger, if_neg hlong, Option.some.injEq] at h
    rw [← h]
    exact Nat.le_of_not_lt hlong

theorem mem_keptLabels {labels : List (String × String)} {raw : String × String}
    (h : raw ∈ keptLabels labels) : (trim raw.1).isEmpty = false := by
  have hfilter := List.of_mem_filter (List.mem_of_mem_take h)
  simpa using hfilter

theorem exists_raw {labels pairs : List (String × String)}
    (h : sanitizeLabels labels = some pairs) {pair : String × String} (hpair : pair ∈ pairs) :
    ∃ raw ∈ keptLabels labels, pair.1 = cleanKey raw.1 ∧
      truncateLonger maxVal raw.2 = some pair.2 := by
  have hpairs := sanitizeLabels_eq_some.mp h
  obtain ⟨i, hi, rfl⟩ := List.getElem_of_mem hpair
  rw [List.forall₂_iff_get] at hpairs
  obtain ⟨hlength, hraw⟩ := hpairs
  have hi' : i < (keptLabels labels).length := by omega
  exact ⟨(keptLabels labels)[i], List.getElem_mem hi', hraw i hi' hi⟩

theorem isSanitized_sanitizeLabels {labels pairs : List (String × String)}
    (h : sanitizeLabels labels = some pairs) : IsSanitized pairs := by
  constructor
  · rw [← (sanitizeLabels_eq_some.mp h).length_eq]
    exact List.length_take_le maxPairs _
  · intro pair hpair
    obtain ⟨raw, hraw, hkey, -⟩ := exists_raw h hpair
    rw [hkey]
    exact ⟨isMetricName_cleanKey (mem_keptLabels hraw), utf8ByteSize_cleanKey_le raw.1⟩
  · intro pair hpair
    obtain ⟨raw, -, -, hvalue⟩ := exists_raw h hpair
    exact utf8ByteSize_truncateLonger hvalue

theorem keptLabels_of_isSanitized {labels : List (String × String)} (h : IsSanitized labels) :
    keptLabels labels = labels := by
  have hnone : ∀ label ∈ labels, (!(trim label.1).isEmpty) = true := by
    intro label hlabel
    have hname := (h.keys label hlabel).1
    rw [trim_of_isMetricName hname]
    simpa using (isMetricName_iff.mp hname).1
  rw [keptLabels, List.filter_eq_self.mpr hnone, List.take_of_length_le h.capped]

theorem sanitizeLabels_of_isSanitized {labels : List (String × String)}
    (h : IsSanitized labels) : sanitizeLabels labels = some labels := by
  rw [sanitizeLabels_eq_some, keptLabels_of_isSanitized h, List.forall₂_same]
  intro label hlabel
  obtain ⟨hname, hsize⟩ := h.keys label hlabel
  exact ⟨(cleanKey_of_isMetricName hname hsize).symm,
    truncateLonger_of_le (h.values label hlabel)⟩

/-- The labels that sanitizing leaves as they are. -/
theorem sanitizeLabels_eq_self_iff {labels : List (String × String)} :
    sanitizeLabels labels = some labels ↔ IsSanitized labels :=
  ⟨isSanitized_sanitizeLabels, sanitizeLabels_of_isSanitized⟩

/-- The pairs that come out are the images of the kept ones. -/
theorem sanitizeLabel_keptLabels {labels pairs : List (String × String)}
    (h : sanitizeLabels labels = some pairs) :
    List.Forall₂ (fun raw pair => sanitizeLabel raw = some (some pair))
      (keptLabels labels) pairs := by
  have hpairs := sanitizeLabels_eq_some.mp h
  rw [List.forall₂_iff_get] at hpairs ⊢
  refine ⟨hpairs.1, ?_⟩
  intro i hi hi'
  obtain ⟨hkey, hvalue⟩ := hpairs.2 i hi hi'
  rw [sanitizeLabel_of_not_blank (mem_keptLabels (List.get_mem _ ⟨i, hi⟩)), hvalue, ← hkey]
  rfl

/-- Sanitizing is a normal form, of names and of labels. -/
theorem sanitized_normal_form (name : String) (labels pairs : List (String × String))
    (h : sanitizeLabels labels = some pairs) :
    (sanitizeMetricName name ≠ "" ∧ isMetricName (sanitizeMetricName name) = true ∧
      (isMetricName name = true → sanitizeMetricName name = name)) ∧
    List.Forall₂ (fun raw pair => sanitizeLabel raw = some (some pair))
      ((labels.filter fun label => !(trim label.1).isEmpty).take 16) pairs ∧
    (∀ pair ∈ pairs, isMetricName pair.1 = true ∧ pair.1.utf8ByteSize ≤ 128 ∧
      pair.2.utf8ByteSize ≤ 256) ∧
    sanitizeLabels pairs = some pairs := by
  have hname := isMetricName_sanitizeMetricName name
  have hpairs := isSanitized_sanitizeLabels h
  refine ⟨⟨?_, hname, sanitizeMetricName_of_isMetricName⟩, sanitizeLabel_keptLabels h, ?_,
    sanitizeLabels_of_isSanitized hpairs⟩
  · intro hempty
    rw [hempty] at hname
    contradiction
  · intro pair hpair
    obtain ⟨hkey, hsize⟩ := hpairs.keys pair hpair
    exact ⟨hkey, hsize, hpairs.values pair hpair⟩

theorem sanitized_normal_form_route :
    sanitizeMetricName "http_requests" = "http_requests" ∧
      sanitizeLabels [("a_b", "x")] = some [("a_b", "x")] := by
  have h : sanitizeLabels [("", "dropped"), (" a.b ", "x")] = some [("a_b", "x")] := by
    decide +kernel
  have hform := sanitized_normal_form "http_requests" _ _ h
  exact ⟨hform.1.2.2 (by decide +kernel), hform.2.2.2⟩

end Tonggeret
