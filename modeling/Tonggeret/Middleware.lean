import Tonggeret.Sanitize

/-!
# Truncation of values and paths

Lengths are measured in bytes and cut in bytes, and both ways to cut panic inside a
character.  A text up to the limit is never cut; a longer one is cut safely exactly
if the limit falls on a character boundary.
-/

namespace Tonggeret

open Tonggeret.Lib
open String (utf8Len)

namespace Middleware

/-- `if p.len() > MAX { p[..MAX].to_string() } else { p.to_string() }`. -/
def truncatePathAt (max : Nat) (p : String) : Option String :=
  if p.utf8ByteSize > max then sliceTo max p else some p

namespace Axum

def truncatePath (p : String) : Option String := truncatePathAt 128 p

end Axum

namespace Actix

def truncatePath (p : String) : Option String := truncatePathAt 128 p

end Actix

end Middleware

/-- The cut at `limit` bytes is on a character boundary, or not made. -/
def SafeCut (limit : Nat) (text : String) : Prop :=
  limit < text.utf8ByteSize → IsCharBoundary limit text.toList

/-- `short` is a prefix of at most `limit` characters, the whole text if that has at most
`limit` bytes. -/
def ShortPrefix (limit : Nat) (text short : String) : Prop :=
  short.toList <+: text.toList ∧ short.length ≤ limit ∧
    (text.utf8ByteSize ≤ limit → short = text)

/-- The pairs come out, with their values shortened. -/
def LabelsTruncated (labels : List (String × String)) : Prop :=
  ∃ pairs, sanitizeLabels labels = some pairs ∧
    List.Forall₂ (fun raw pair => ShortPrefix maxVal raw.2 pair.2) (keptLabels labels) pairs

def PathTruncated (truncatePath : String → Option String) (path : String) : Prop :=
  ∃ short, truncatePath path = some short ∧ ShortPrefix 128 path short

/-! ## One text -/

/-- Both ways to shorten a text that is too long are one. -/
theorem truncateLonger_eq (limit : Nat) (text : String) :
    truncateLonger limit text = Middleware.truncatePathAt limit text := by
  rw [truncateLonger, Middleware.truncatePathAt]
  split
  · rename_i hlong
    exact truncate_of_lt hlong
  · rfl

theorem truncatePathAt_shortPrefix {limit : Nat} {text short : String}
    (h : Middleware.truncatePathAt limit text = some short) : ShortPrefix limit text short := by
  rw [Middleware.truncatePathAt] at h
  split at h
  · obtain ⟨hinit, hsize⟩ := sliceTo_eq_some.mp h
    have hlength := length_le_utf8ByteSize short
    exact ⟨hinit, by omega, fun _ => by omega⟩
  · obtain rfl := Option.some.inj h
    have hlength := length_le_utf8ByteSize text
    exact ⟨List.prefix_rfl, by omega, fun _ => rfl⟩

theorem truncatePathAt_isSome {limit : Nat} {text : String} :
    (∃ short, Middleware.truncatePathAt limit text = some short) ↔ SafeCut limit text := by
  rw [← Option.isSome_iff_exists, Middleware.truncatePathAt, SafeCut]
  split
  · rename_i hlong
    rw [sliceTo_isSome]
    exact ⟨fun h _ => h, fun h => h hlong⟩
  · rename_i hshort
    exact ⟨fun _ hlong => absurd hlong hshort, fun _ => rfl⟩

theorem pathTruncated_iff (path : String) :
    PathTruncated (Middleware.truncatePathAt 128) path ↔ SafeCut 128 path := by
  rw [← truncatePathAt_isSome]
  constructor
  · rintro ⟨short, hshort, -⟩
    exact ⟨short, hshort⟩
  · rintro ⟨short, hshort⟩
    exact ⟨short, hshort, truncatePathAt_shortPrefix hshort⟩

/-! ## All pairs -/

theorem exists_forall₂ {α β : Type} {R : α → β → Prop} {l : List α} :
    (∃ l', List.Forall₂ R l l') ↔ ∀ a ∈ l, ∃ b, R a b := by
  induction l with
  | nil => simp
  | cons a l ih =>
      rw [List.forall_mem_cons, ← ih]
      constructor
      · rintro ⟨l', h⟩
        obtain ⟨b, rest, hb, hrest, -⟩ := List.forall₂_cons_left_iff.mp h
        exact ⟨⟨b, hb⟩, rest, hrest⟩
      · rintro ⟨⟨b, hb⟩, rest, hrest⟩
        exact ⟨b :: rest, .cons hb hrest⟩

/-- The pairs come out exactly if every value that is looked at can be cut. -/
theorem labelsTruncated_iff (labels : List (String × String)) :
    LabelsTruncated labels ↔ ∀ label ∈ keptLabels labels, SafeCut maxVal label.2 := by
  constructor
  · rintro ⟨pairs, hpairs, -⟩ label hlabel
    have hall := exists_forall₂.mp ⟨pairs, sanitizeLabels_eq_some.mp hpairs⟩
    obtain ⟨pair, -, hcut⟩ := hall label hlabel
    rw [truncateLonger_eq] at hcut
    exact truncatePathAt_isSome.mp ⟨pair.2, hcut⟩
  · intro hsafe
    have hall : ∀ label ∈ keptLabels labels, ∃ pair : String × String,
        pair.1 = cleanKey label.1 ∧ truncateLonger maxVal label.2 = some pair.2 := by
      intro label hlabel
      obtain ⟨value, hvalue⟩ := truncatePathAt_isSome.mpr (hsafe label hlabel)
      exact ⟨(cleanKey label.1, value), rfl, by rw [truncateLonger_eq, hvalue]⟩
    obtain ⟨pairs, hpairs⟩ := exists_forall₂.mpr hall
    refine ⟨pairs, sanitizeLabels_eq_some.mpr hpairs, hpairs.imp ?_⟩
    rintro raw pair ⟨-, hcut⟩
    rw [truncateLonger_eq] at hcut
    exact truncatePathAt_shortPrefix hcut

/-- Truncation is total exactly where every cut falls on a character boundary. -/
theorem truncation_total_iff (labels : List (String × String)) (path : String) :
    (LabelsTruncated labels ↔ ∀ label ∈ keptLabels labels, SafeCut maxVal label.2) ∧
    (PathTruncated Middleware.Axum.truncatePath path ↔ SafeCut 128 path) ∧
    (PathTruncated Middleware.Actix.truncatePath path ↔ SafeCut 128 path) :=
  ⟨labelsTruncated_iff labels, pathTruncated_iff path, pathTruncated_iff path⟩

theorem truncatePathAt_of_split_character {limit : Nat} {chars : List Char}
    (hlong : limit < utf8Len chars) (hsplit : takeBytes limit chars = none) :
    Middleware.truncatePathAt limit (String.ofList chars) = none := by
  rw [Middleware.truncatePathAt, String.utf8ByteSize_ofList, if_pos hlong, sliceTo,
    String.toList_ofList, hsplit]
  rfl

theorem sanitizeLabels_of_split_value {key value : String} (hkey : (trim key).isEmpty = false)
    (hvalue : Middleware.truncatePathAt maxVal value = none) :
    sanitizeLabels [(key, value)] = none := by
  have hlabel : sanitizeLabel (key, value) = none := by
    rw [@sanitizeLabel_of_not_blank (key, value) hkey, truncateLonger_eq, hvalue,
      Option.map_none]
  have hfirst : ∀ n, takeSanitized (n + 1) [(key, value)] = none := by
    intro n
    rw [takeSanitized, hlabel, Option.bind_eq_bind, Option.bind_none]
  exact hfirst 15

/-- 255 letters and a two-byte one: byte 256 is inside the last. -/
theorem accented_value_panics :
    sanitizeLabels [("k", String.ofList (List.replicate 255 'x' ++ ['é']))] = none ∧
      Middleware.Axum.truncatePath (String.ofList (List.replicate 127 'x' ++ ['é'])) = none ∧
      Middleware.Actix.truncatePath (String.ofList (List.replicate 127 'x' ++ ['é'])) =
        none := by
  have hpath : Middleware.truncatePathAt 128
      (String.ofList (List.replicate 127 'x' ++ ['é'])) = none :=
    truncatePathAt_of_split_character (by decide +kernel) (by decide +kernel)
  have hvalue : Middleware.truncatePathAt maxVal
      (String.ofList (List.replicate 255 'x' ++ ['é'])) = none :=
    truncatePathAt_of_split_character (by decide +kernel) (by decide +kernel)
  refine ⟨?_, hpath, hpath⟩
  have hkey : (trim "k").isEmpty = false := by decide +kernel
  exact sanitizeLabels_of_split_value hkey hvalue

/-- An accent away from the limit is no obstacle: byte 128 starts a letter. -/
example : (Middleware.Axum.truncatePath
    (String.ofList ('é' :: List.replicate 130 'x'))).isSome := by
  decide +kernel

end Tonggeret
