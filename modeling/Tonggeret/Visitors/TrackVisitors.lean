import Tonggeret.SanitizedForm
import Tonggeret.Visitors.Identity
import Tonggeret.Visitors.Series

/-!
# Visits by way of the middleware

The middleware of both frameworks takes the region from the first country header that
holds a code, so it never names `other`: with no other callers, what is under that label
are the regions that overflow.
-/

namespace Tonggeret.Visitors

open Tonggeret.Lib

section

variable {Value : Type} (toStr : Value → Option String)

/-- The region of a request. -/
def Request.region (req : Request Value) : String :=
  parseRegion (req.header toStr "cf-ipcountry") (req.header toStr "x-vercel-ip-country")
    (req.header toStr "cloudfront-viewer-country")

namespace Actix

/-- The key and the region passed to `observe_visitor`; `realIp` is
`connection_info().realip_remote_addr()`. -/
def trackVisitors (req : Request Value) (realIp : Option String) : String × String :=
  let peer := realIp.getD "direct"
  let region := parseRegion (req.header toStr "cf-ipcountry")
    (req.header toStr "x-vercel-ip-country") (req.header toStr "cloudfront-viewer-country")
  let key := visitorKey (req.forwarded toStr) peer (req.userAgent toStr)
  (key, region)

end Actix

/-- A request that one of the two has handled. -/
inductive Handled (Value : Type)
  | axum (req : Request Value)
  | actix (req : Request Value) (realIp : Option String)

namespace Handled

def request : Handled Value → Request Value
  | .axum req => req
  | .actix req _ => req

def tracked : Handled Value → String × String
  | .axum req => Axum.trackVisitors toStr req
  | .actix req realIp => Actix.trackVisitors toStr req realIp

/-- `observe_visitor(&key, &region)`. -/
def visit (handled : Handled Value) (contended : Bool) : Visit :=
  ⟨(handled.tracked toStr).1, (handled.tracked toStr).2, contended⟩

theorem tracked_region (handled : Handled Value) :
    (handled.tracked toStr).2 = handled.request.region toStr := by
  cases handled <;> rfl

end Handled

end

/-! ## Regions -/

theorem toUpper_of_isUpper {c : Char} (h : c.isUpper = true) : c.toUpper = c := by
  rw [isUpper_iff] at h
  refine dif_neg ?_
  rintro ⟨hlow, -⟩
  have ha : 'a'.val.toNat = 97 := rfl
  rw [UInt32.le_iff_toNat_le] at hlow
  omega

/-- A code is its own normal form. -/
theorem normalizeRegion_code {a b : Char} (ha : a.isUpper = true) (hb : b.isUpper = true) :
    normalizeRegion (String.ofList [a, b]) = String.ofList [a, b] := by
  have hname : isMetricName (String.ofList [a, b]) = true := by
    simp [isMetricName, isAlphanum_iff, isAlpha_iff, ha, hb]
  have htrim := trim_of_isMetricName hname
  have hupper : toAsciiUppercase (String.ofList [a, b]) = String.ofList [a, b] := by
    rw [toAsciiUppercase, String.toList_ofList, List.map_cons, List.map_cons,
      toUpper_of_isUpper ha, toUpper_of_isUpper hb]
    rfl
  have hsize : a.utf8Size = 1 ∧ b.utf8Size = 1 :=
    ⟨utf8Size_of_isAlphanum (isAlphanum_iff.mpr (Or.inl (isAlpha_iff.mpr (Or.inl ha)))),
      utf8Size_of_isAlphanum (isAlphanum_iff.mpr (Or.inl (isAlpha_iff.mpr (Or.inl hb))))⟩
  have hcode : isCountryCode (String.ofList [a, b]) = true := by
    rw [isCountryCode, String.utf8ByteSize_ofList, String.toList_ofList]
    simp [String.utf8Len, hsize.1, hsize.2, isAlpha_iff.mpr (Or.inl ha),
      isAlpha_iff.mpr (Or.inl hb)]
  rw [normalizeRegion, htrim, hupper, if_pos hcode]

theorem parseRegion_cases (cfIpCountry vercelIpCountry cloudfrontViewerCountry : Option String) :
    (∃ a b : Char, a.isUpper = true ∧ b.isUpper = true ∧
      parseRegion cfIpCountry vercelIpCountry cloudfrontViewerCountry = String.ofList [a, b]) ∨
    parseRegion cfIpCountry vercelIpCountry cloudfrontViewerCountry = regionUnknown := by
  unfold parseRegion
  generalize [cfIpCountry, vercelIpCountry, cloudfrontViewerCountry].filterMap id = raws
  dsimp only
  cases hfind : (raws.map fun raw => toAsciiUppercase (trim raw)).find? isCountryCode with
  | none => exact Or.inr rfl
  | some code =>
      have hcode := List.find?_some hfind
      obtain ⟨raw, -, rfl⟩ := List.mem_map.mp (List.mem_of_find?_eq_some hfind)
      exact Or.inl (isCountryCode_toAsciiUppercase hcode)

theorem normalizeRegion_unknown : normalizeRegion regionUnknown = regionUnknown := by
  decide +kernel

/-- What the headers give is counted as it is, and never as `other`. -/
theorem normalizeRegion_parseRegion
    (cfIpCountry vercelIpCountry cloudfrontViewerCountry : Option String) :
    let region := parseRegion cfIpCountry vercelIpCountry cloudfrontViewerCountry
    normalizeRegion region = region ∧ region ≠ regionOther := by
  intro region
  rcases parseRegion_cases cfIpCountry vercelIpCountry cloudfrontViewerCountry with
    ⟨a, b, ha, hb, heq⟩ | heq
  · rw [show region = String.ofList [a, b] from heq]
    refine ⟨normalizeRegion_code ha hb, fun hother => ?_⟩
    have hlength := congrArg String.length hother
    rw [String.length_ofList] at hlength
    change 2 = regionOther.length at hlength
    exact absurd hlength (by decide)
  · rw [show region = regionUnknown from heq]
    exact ⟨normalizeRegion_unknown, by decide⟩

/-! ## Keys -/

/-- The two frameworks give one key to a request exactly if a proxy names the client, or
they print the peer alike. -/
theorem trackVisitors_key_iff {Value : Type} (toStr : Value → Option String)
    (req : Request Value) (realIp : Option String) :
    (Axum.trackVisitors toStr req).1 = (Actix.trackVisitors toStr req realIp).1 ↔
      (firstEntry (req.forwarded toStr)).isSome = true ∨ req.peer = realIp.getD "direct" := by
  rw [Axum.trackVisitors, Actix.trackVisitors, visitorKey, visitorKey]
  cases firstEntry (req.forwarded toStr) with
  | some entry => exact iff_of_true rfl (Or.inl rfl)
  | none =>
      rw [Option.getD_none, Option.getD_none, String.append_left_inj, String.append_left_inj]
      simp

/-! ## Series -/

section

variable {Value : Type} (hashKey : String → UInt64) (maxRegions : UInt64)
variable (toStr : Value → Option String)

/-- The visits of the requests. -/
def visitsOfRequests (requests : List (Handled Value × Bool)) : List Visit :=
  requests.map fun request => request.1.visit toStr request.2

/-- With the middleware as the only caller a request is counted under the region of its
headers, none under `other`, and the two series agree on every label exactly if no request
overflows. -/
theorem middleware_series_agree (requests : List (Handled Value × Bool)) :
    let visits := visitsOfRequests toStr requests
    (∀ region, visitsCounted hashKey maxRegions visits region =
      requests.countP fun request => request.1.request.region toStr = region) ∧
    visitsCounted hashKey maxRegions visits regionOther = 0 ∧
    ((∀ region, SeriesAgree hashKey maxRegions visits region) ↔
      AllFit hashKey maxRegions visits) := by
  have hregion : ∀ (handled : Handled Value) (contended : Bool),
      normalizeRegion (handled.visit toStr contended).region = handled.request.region toStr ∧
        handled.request.region toStr ≠ regionOther := by
    intro handled contended
    have hparsed := normalizeRegion_parseRegion (handled.request.header toStr "cf-ipcountry")
      (handled.request.header toStr "x-vercel-ip-country")
      (handled.request.header toStr "cloudfront-viewer-country")
    rw [Handled.visit, handled.tracked_region]
    exact hparsed
  have hcounted : ∀ region, visitsCounted hashKey maxRegions
      (visitsOfRequests toStr requests) region =
      requests.countP fun request => request.1.request.region toStr = region := by
    intro region
    rw [visitsCounted_eq, visitsOfRequests, List.countP_map]
    apply List.countP_congr
    intro request _
    rw [Function.comp_apply, (hregion request.1 request.2).1]
  have hnone : ∀ visit ∈ visitsOfRequests toStr requests,
      normalizeRegion visit.region ≠ regionOther := by
    intro visit hvisit
    obtain ⟨request, -, rfl⟩ := List.mem_map.mp hvisit
    rw [(hregion request.1 request.2).1]
    exact (hregion request.1 request.2).2
  intro visits
  refine ⟨hcounted, ?_, ?_⟩
  · rw [hcounted, List.countP_eq_zero]
    intro request _
    simpa using (hregion request.1 request.2).2
  · constructor
    · exact fun hagree => allFit_of_seriesAgree hnone (hagree regionOther)
    · exact fun hfit region => seriesAgree_of_allFit hfit region

end

end Tonggeret.Visitors
