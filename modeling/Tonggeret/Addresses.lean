import Mathlib.Tactic.IntervalCases
import Tonggeret.Lib.Fields

/-!
# Printed socket addresses

An address is printed as the standard library prints it.  The text of an IP address
determines the address; that of a socket address also determines the port and the scope.
-/

namespace Tonggeret

open Tonggeret.Lib

structure Ipv4Addr where
  octets : Vector UInt8 4
deriving DecidableEq

structure Ipv6Addr where
  segments : Vector UInt16 8
deriving DecidableEq

inductive IpAddr where
  | v4 (ip : Ipv4Addr)
  | v6 (ip : Ipv6Addr)
deriving DecidableEq

inductive SocketAddr where
  | v4 (ip : Ipv4Addr) (port : UInt16)
  | v6 (ip : Ipv6Addr) (port : UInt16) (flowinfo scopeId : UInt32)
deriving DecidableEq

def SocketAddr.ip : SocketAddr → IpAddr
  | .v4 ip _ => .v4 ip
  | .v6 ip _ _ _ => .v6 ip

def SocketAddr.port : SocketAddr → UInt16
  | .v4 _ port => port
  | .v6 _ port _ _ => port

/-- The zone of an IPv6 address; an IPv4 address has none. -/
def SocketAddr.scopeId : SocketAddr → UInt32
  | .v4 _ _ => 0
  | .v6 _ _ _ scopeId => scopeId

/-! ## Display -/

def decimal (n : Nat) : List Char := Nat.toDigits 10 n

/-- `{:x}`. -/
def lowerHex (segment : UInt16) : List Char := Nat.toDigits 16 segment.toNat

def Ipv4Addr.fmt (ip : Ipv4Addr) : List Char :=
  ['.'].intercalate (ip.octets.toList.map fun octet => decimal octet.toNat)

namespace Ipv6Addr

/-- The address behind the prefix `::ffff:0:0/96`. -/
def toIpv4Mapped (ip : Ipv6Addr) : Option Ipv4Addr :=
  if ip.segments.toList.take 6 = [0, 0, 0, 0, 0, 0xffff] then
    some ⟨#v[(ip.segments[6] >>> 8).toUInt8, ip.segments[6].toUInt8,
      (ip.segments[7] >>> 8).toUInt8, ip.segments[7].toUInt8]⟩
  else none

structure Span where
  start : Nat
  len : Nat
deriving DecidableEq

/-- One segment of the search for the longest run of zeros, and of that under way. -/
def widen (spans : Span × Span) (segment : UInt16 × Nat) : Span × Span :=
  let (longest, current) := spans
  if segment.1 = 0 then
    let current : Span :=
      ⟨if current.len = 0 then segment.2 else current.start, current.len + 1⟩
    (if current.len > longest.len then current else longest, current)
  else (longest, ⟨0, 0⟩)

/-- The first longest run of zeros. -/
def zeroes (segments : List UInt16) : Span :=
  (segments.zipIdx.foldl widen (⟨0, 0⟩, ⟨0, 0⟩)).1

def fmtSubslice : List UInt16 → List Char
  | [] => []
  | first :: tail => lowerHex first ++ tail.flatMap fun segment => ':' :: lowerHex segment

/-- The longest run of zeros, if longer than one, is left out. -/
def fmtSegments (segments : List UInt16) : List Char :=
  let span := zeroes segments
  if span.len > 1 then
    fmtSubslice (segments.take span.start) ++ ':' :: ':' ::
      fmtSubslice (segments.drop (span.start + span.len))
  else fmtSubslice segments

def fmt (ip : Ipv6Addr) : List Char :=
  match ip.toIpv4Mapped with
  | some ipv4 => "::ffff:".toList ++ ipv4.fmt
  | none => fmtSegments ip.segments.toList

end Ipv6Addr

def IpAddr.fmt : IpAddr → List Char
  | .v4 ip => ip.fmt
  | .v6 ip => ip.fmt

/-- `ip:port`; `[ip]:port` or `[ip%scope]:port` for IPv6. -/
def SocketAddr.fmt : SocketAddr → List Char
  | .v4 ip port => ip.fmt ++ ':' :: decimal port.toNat
  | .v6 ip port _ scopeId =>
      if scopeId = 0 then '[' :: (ip.fmt ++ ']' :: ':' :: decimal port.toNat)
      else '[' :: (ip.fmt ++ '%' :: (decimal scopeId.toNat ++ ']' :: ':' :: decimal port.toNat))

def IpAddr.toString (ip : IpAddr) : String := String.ofList ip.fmt

def SocketAddr.toString (addr : SocketAddr) : String := String.ofList addr.fmt

/-! ## Characters -/

/-- A character of a printed IP address. -/
def IsAddressChar (c : Char) : Prop := c.isAlphanum = true ∨ c = '.' ∨ c = ':'

instance : DecidablePred IsAddressChar := fun _ => inferInstanceAs (Decidable (_ ∨ _))

theorem notMem_decimal {sep : Char} (hsep : sep.isAlphanum = false) (n : Nat) :
    sep ∉ decimal n := notMem_toDigits (by decide) (by decide) hsep n

theorem notMem_lowerHex {sep : Char} (hsep : sep.isAlphanum = false) (segment : UInt16) :
    sep ∉ lowerHex segment := notMem_toDigits (by decide) (by decide) hsep segment.toNat

theorem decimal_injective : Function.Injective decimal :=
  toDigits_injective (by decide) (by decide)

theorem lowerHex_injective : Function.Injective lowerHex := by
  intro s t h
  exact UInt16.toNat_inj.mp (toDigits_injective (by decide) (by decide) h)

theorem lowerHex_ne_nil (segment : UInt16) : lowerHex segment ≠ [] := Nat.toDigits_ne_nil

namespace Ipv4Addr

variable (ip : Ipv4Addr)

theorem fmt_char {c : Char} (h : c ∈ ip.fmt) : c.isAlphanum = true ∨ c = '.' := by
  rcases mem_intercalate h with hsep | ⟨field, hfield, hc⟩
  · exact Or.inr hsep
  · obtain ⟨octet, -, rfl⟩ := List.mem_map.mp hfield
    exact Or.inl (isAlphanum_of_mem_toDigits (by decide) (by decide) hc)

theorem dot_mem_fmt : '.' ∈ ip.fmt := by
  obtain ⟨a, b, rest, h⟩ : ∃ a b rest, ip.octets.toList = a :: b :: rest := by
    match hlist : ip.octets.toList, ip.octets.length_toList with
    | a :: b :: rest, _ => exact ⟨a, b, rest, rfl⟩
  rw [fmt, h, List.map_cons, List.map_cons]
  exact mem_intercalate_of_two _ _ _

theorem colon_notMem_fmt : ':' ∉ ip.fmt := by
  intro h
  rcases ip.fmt_char h with h | h <;> contradiction

theorem splitOn_fmt :
    ip.fmt.splitOn '.' = ip.octets.toList.map fun octet => decimal octet.toNat := by
  rw [fmt, List.splitOn_intercalate]
  · intro field hfield
    obtain ⟨octet, -, rfl⟩ := List.mem_map.mp hfield
    exact notMem_decimal rfl octet.toNat
  · rw [ne_eq, List.map_eq_nil_iff]
    exact List.ne_nil_of_length_pos (by rw [Vector.length_toList]; decide)

theorem fmt_injective : Function.Injective fmt := by
  intro a b h
  have hdigits : Function.Injective fun octet : UInt8 => decimal octet.toNat := by
    intro s t heq
    exact UInt8.toNat_inj.mp (decimal_injective heq)
  have hmap : a.octets.toList.map (fun octet => decimal octet.toNat) =
      b.octets.toList.map (fun octet => decimal octet.toNat) := by
    rw [← splitOn_fmt, ← splitOn_fmt, h]
  have hlist : a.octets.toList = b.octets.toList := hdigits.list_map hmap
  cases a
  cases b
  rw [mk.injEq]
  exact Vector.toList_inj.mp hlist

end Ipv4Addr

/-! ## Runs of zeros -/

namespace Ipv6Addr

/-- The span covers zeros of the segments. -/
def Span.Zeros (span : Span) (segments : List UInt16) : Prop :=
  ∃ before after, before.length = span.start ∧
    segments = before ++ (List.replicate span.len 0 ++ after)

/-- The span covers the zeros that end the segments. -/
def Span.FinalZeros (span : Span) (segments : List UInt16) : Prop :=
  span.len = 0 ∨ ∃ before, before.length = span.start ∧
    segments = before ++ List.replicate span.len 0

def Spans (spans : Span × Span) (segments : List UInt16) : Prop :=
  spans.1.Zeros segments ∧ spans.2.FinalZeros segments

theorem Span.Zeros.concat {span : Span} {segments : List UInt16} (h : span.Zeros segments)
    (segment : UInt16) : span.Zeros (segments ++ [segment]) := by
  obtain ⟨before, after, hstart, rfl⟩ := h
  exact ⟨before, after ++ [segment], hstart, by simp only [List.append_assoc]⟩

theorem Span.FinalZeros.zeros {span : Span} {segments : List UInt16}
    (h : span.FinalZeros segments) (hlen : span.len ≠ 0) : span.Zeros segments := by
  rcases h with h | ⟨before, hstart, rfl⟩
  · contradiction
  · exact ⟨before, [], hstart, by rw [List.append_nil]⟩

theorem Span.FinalZeros.concat {span : Span} {segments : List UInt16}
    (h : span.FinalZeros segments) :
    Span.FinalZeros ⟨if span.len = 0 then segments.length else span.start, span.len + 1⟩
      (segments ++ [0]) := by
  right
  by_cases hlen : span.len = 0
  · exact ⟨segments, (if_pos hlen).symm, by rw [hlen]; rfl⟩
  · rcases h with h | ⟨before, hstart, rfl⟩
    · contradiction
    · refine ⟨before, ?_, ?_⟩
      · rw [if_neg hlen, hstart]
      · rw [List.replicate_succ', List.append_assoc]

theorem spans_widen {spans : Span × Span} {segments : List UInt16} (h : Spans spans segments)
    (segment : UInt16) :
    Spans (widen spans (segment, segments.length)) (segments ++ [segment]) := by
  obtain ⟨hlongest, hcurrent⟩ := h
  rw [widen]
  by_cases hzero : segment = 0
  · have hnext := hcurrent.concat
    rw [if_pos hzero, hzero]
    constructor
    · dsimp only
      split
      · exact hnext.zeros (Nat.succ_ne_zero _)
      · exact hlongest.concat 0
    · exact hnext
  · rw [if_neg hzero]
    exact ⟨hlongest.concat segment, Or.inl rfl⟩

theorem spans_foldl (segments : List UInt16) :
    Spans (segments.zipIdx.foldl widen (⟨0, 0⟩, ⟨0, 0⟩)) segments := by
  induction segments using List.reverseRecOn with
  | nil => exact ⟨⟨[], [], rfl, rfl⟩, Or.inl rfl⟩
  | append_singleton segments segment ih =>
      rw [List.zipIdx_append, List.foldl_append, Nat.zero_add]
      exact spans_widen ih segment

theorem zeroes_zeros (segments : List UInt16) : (zeroes segments).Zeros segments :=
  (spans_foldl segments).1

/-! ## Reading an address back -/

theorem fmtSubslice_eq (segments : List UInt16) :
    fmtSubslice segments = [':'].intercalate (segments.map lowerHex) := by
  cases segments with
  | nil => rfl
  | cons first tail =>
      rw [List.map_cons, intercalate_cons_flatMap, List.flatMap_map]
      rfl

theorem colon_notMem_fields (segments : List UInt16) :
    ∀ field ∈ segments.map lowerHex, ':' ∉ field := by
  intro field hfield
  obtain ⟨segment, -, rfl⟩ := List.mem_map.mp hfield
  exact notMem_lowerHex rfl segment

theorem nil_notMem_fields (segments : List UInt16) : [] ∉ segments.map lowerHex := by
  intro h
  obtain ⟨segment, -, hnil⟩ := List.mem_map.mp h
  exact lowerHex_ne_nil segment hnil

theorem restore_fmtSegments {segments : List UInt16} (hlen : segments ≠ []) :
    restore segments.length ['0'] ((fmtSegments segments).splitOn ':') =
      segments.map lowerHex := by
  rw [fmtSegments]
  split
  · obtain ⟨before, after, hstart, hsegments⟩ := zeroes_zeros segments
    generalize (zeroes segments).start = start at hstart ⊢
    generalize (zeroes segments).len = len at hsegments ⊢
    obtain ⟨k, hsplit⟩ := splitOn_gap (colon_notMem_fields before) (colon_notMem_fields after)
    have htake : segments.take start = before := by
      rw [hsegments, List.take_left' hstart]
    have hdrop : segments.drop (start + len) = after := by
      rw [hsegments, ← List.drop_drop, List.drop_left' hstart,
        List.drop_left' List.length_replicate]
    have hlength : segments.length =
        (before.map lowerHex).length + (len + (after.map lowerHex).length) := by
      rw [hsegments, List.length_append, List.length_append, List.length_replicate,
        List.length_map, List.length_map]
    rw [htake, hdrop, fmtSubslice_eq, fmtSubslice_eq, hsplit, hlength,
      restore_gap (nil_notMem_fields before) (nil_notMem_fields after), hsegments,
      List.map_append, List.map_append, List.map_replicate]
    rfl
  · have hfields : segments.map lowerHex ≠ [] := by
      rwa [ne_eq, List.map_eq_nil_iff]
    rw [fmtSubslice_eq, List.splitOn_intercalate ':' (colon_notMem_fields segments) hfields,
      restore_of_full _ _ (nil_notMem_fields segments)]

theorem fmtSegments_injective {segments segments' : List UInt16} (hlen : segments ≠ [])
    (hlen' : segments.length = segments'.length)
    (h : fmtSegments segments = fmtSegments segments') : segments = segments' := by
  have hne : segments' ≠ [] := by
    intro hnil
    rw [hnil, List.length_nil, List.length_eq_zero_iff] at hlen'
    exact hlen hlen'
  have hmap : segments.map lowerHex = segments'.map lowerHex := by
    rw [← restore_fmtSegments hlen, ← restore_fmtSegments hne, h, hlen']
  exact lowerHex_injective.list_map hmap

theorem fmtSubslice_char {segments : List UInt16} {c : Char} (h : c ∈ fmtSubslice segments) :
    c.isAlphanum = true ∨ c = ':' := by
  rw [fmtSubslice_eq] at h
  rcases mem_intercalate h with hsep | ⟨field, hfield, hc⟩
  · exact Or.inr hsep
  · obtain ⟨segment, -, rfl⟩ := List.mem_map.mp hfield
    exact Or.inl (isAlphanum_of_mem_toDigits (by decide) (by decide) hc)

theorem fmtSegments_char {segments : List UInt16} {c : Char} (h : c ∈ fmtSegments segments) :
    c.isAlphanum = true ∨ c = ':' := by
  rw [fmtSegments] at h
  split at h
  · rw [List.mem_append, List.mem_cons, List.mem_cons] at h
    rcases h with h | h | h | h
    · exact fmtSubslice_char h
    · exact Or.inr h
    · exact Or.inr h
    · exact fmtSubslice_char h
  · exact fmtSubslice_char h

theorem colon_mem_fmtSegments {segments : List UInt16} (hlen : 2 ≤ segments.length) :
    ':' ∈ fmtSegments segments := by
  rw [fmtSegments]
  split
  · exact List.mem_append_right _ List.mem_cons_self
  · match segments, hlen with
    | first :: second :: rest, _ =>
        rw [fmtSubslice_eq]
        exact mem_intercalate_of_two _ _ _

theorem halves_injective {s t : UInt16} (hhigh : (s >>> 8).toUInt8 = (t >>> 8).toUInt8)
    (hlow : s.toUInt8 = t.toUInt8) : s = t := by
  have hhigh' := congrArg UInt8.toNat hhigh
  have hlow' := congrArg UInt8.toNat hlow
  rw [UInt16.toNat_toUInt8, UInt16.toNat_toUInt8, UInt16.toNat_shiftRight,
    UInt16.toNat_shiftRight, Nat.shiftRight_eq_div_pow, Nat.shiftRight_eq_div_pow] at hhigh'
  rw [UInt16.toNat_toUInt8, UInt16.toNat_toUInt8] at hlow'
  have hs := s.toNat_lt
  have ht := t.toNat_lt
  apply UInt16.toNat_inj.mp
  change s.toNat / 2 ^ 8 % 2 ^ 8 = t.toNat / 2 ^ 8 % 2 ^ 8 at hhigh'
  omega

theorem eq_of_segments {a b : Ipv6Addr} (h : a.segments.toList = b.segments.toList) : a = b := by
  cases a
  cases b
  rw [mk.injEq]
  exact Vector.toList_inj.mp h

theorem segments_eq_take (ip : Ipv6Addr) :
    ip.segments.toList = ip.segments.toList.take 6 ++ [ip.segments[6], ip.segments[7]] := by
  have hlen : ip.segments.toList.length = 8 := ip.segments.length_toList
  have hdrop : ip.segments.toList.drop 6 = [ip.segments[6], ip.segments[7]] := by
    rw [List.drop_eq_getElem_cons (by omega), List.drop_eq_getElem_cons (by omega),
      List.drop_of_length_le (by omega)]
    rfl
  rw [← hdrop, List.take_append_drop]

theorem toIpv4Mapped_injective {a b : Ipv6Addr} {ipv4 : Ipv4Addr}
    (ha : a.toIpv4Mapped = some ipv4) (hb : b.toIpv4Mapped = some ipv4) : a = b := by
  rw [toIpv4Mapped, Option.ite_none_right_eq_some] at ha hb
  obtain ⟨hinit, ha⟩ := ha
  obtain ⟨hinit', hb⟩ := hb
  have hoctets := Ipv4Addr.mk.inj (Option.some.inj (ha.trans hb.symm))
  have hlast : a.segments[6] = b.segments[6] ∧ a.segments[7] = b.segments[7] := by
    have hoctet : ∀ i (hi : i < 4), _ := fun i hi => congrArg (fun v => v[i]) hoctets
    exact ⟨halves_injective (hoctet 0 (by decide)) (hoctet 1 (by decide)),
      halves_injective (hoctet 2 (by decide)) (hoctet 3 (by decide))⟩
  have hlist : a.segments.toList = b.segments.toList := by
    rw [segments_eq_take, segments_eq_take b, hinit, hinit', hlast.1, hlast.2]
  exact eq_of_segments hlist

theorem fmt_injective : Function.Injective fmt := by
  intro a b h
  have hdot : ∀ {segments ipv4}, fmtSegments segments ≠ "::ffff:".toList ++ Ipv4Addr.fmt ipv4 := by
    intro segments ipv4 heq
    have hmem : '.' ∈ fmtSegments segments := by
      rw [heq]
      exact List.mem_append_right _ ipv4.dot_mem_fmt
    rcases fmtSegments_char hmem with h | h <;> contradiction
  rw [fmt, fmt] at h
  cases ha : a.toIpv4Mapped with
  | some ipv4 =>
      cases hb : b.toIpv4Mapped with
      | some ipv4' =>
          rw [ha, hb] at h
          obtain rfl := Ipv4Addr.fmt_injective (List.append_cancel_left h)
          exact toIpv4Mapped_injective ha hb
      | none =>
          rw [ha, hb] at h
          exact absurd h.symm hdot
  | none =>
      cases hb : b.toIpv4Mapped with
      | some ipv4 =>
          rw [ha, hb] at h
          exact absurd h hdot
      | none =>
          rw [ha, hb] at h
          have hlen : a.segments.toList.length = 8 := a.segments.length_toList
          have hlist := fmtSegments_injective (List.ne_nil_of_length_pos (by omega))
            (hlen.trans b.segments.length_toList.symm) h
          exact eq_of_segments hlist

theorem fmt_char (ip : Ipv6Addr) {c : Char} (h : c ∈ ip.fmt) : IsAddressChar c := by
  rw [fmt] at h
  split at h
  · rename_i ipv4 _
    rcases List.mem_append.mp h with h | h
    · have hinit : "::ffff:".toList.all (fun d => d.isAlphanum || d == ':') = true := by decide
      have hc := List.all_eq_true.mp hinit c h
      rw [Bool.or_eq_true, beq_iff_eq] at hc
      exact hc.imp_right Or.inr
    · exact (ipv4.fmt_char h).imp_right Or.inl
  · exact (fmtSegments_char h).imp_right Or.inr

theorem colon_mem_fmt (ip : Ipv6Addr) : ':' ∈ ip.fmt := by
  rw [fmt]
  split
  · exact List.mem_append_left _ (by decide)
  · exact colon_mem_fmtSegments (by rw [Vector.length_toList]; decide)

end Ipv6Addr

/-! ## IP addresses and socket addresses -/

theorem IpAddr.fmt_injective : Function.Injective IpAddr.fmt := by
  intro a b h
  cases a with
  | v4 a =>
      cases b with
      | v4 b => rw [Ipv4Addr.fmt_injective h]
      | v6 b =>
          change a.fmt = b.fmt at h
          exact absurd (h ▸ b.colon_mem_fmt) a.colon_notMem_fmt
  | v6 a =>
      cases b with
      | v4 b =>
          change a.fmt = b.fmt at h
          exact absurd (h ▸ a.colon_mem_fmt) b.colon_notMem_fmt
      | v6 b => rw [Ipv6Addr.fmt_injective h]

theorem IpAddr.fmt_char (ip : IpAddr) {c : Char} (h : c ∈ ip.fmt) : IsAddressChar c := by
  cases ip with
  | v4 ip => exact (ip.fmt_char h).imp_right Or.inl
  | v6 ip => exact ip.fmt_char h

theorem IpAddr.notMem_fmt {sep : Char} (hsep : ¬ IsAddressChar sep) (ip : IpAddr) :
    sep ∉ ip.fmt := fun h => hsep (ip.fmt_char h)

theorem IpAddr.toString_injective : Function.Injective IpAddr.toString := by
  intro a b h
  exact IpAddr.fmt_injective (String.ofList_injective h)

namespace SocketAddr

/-- The text between the brackets and the colon of an IPv6 socket address. -/
def zone (scopeId : UInt32) : List Char :=
  if scopeId = 0 then [] else '%' :: decimal scopeId.toNat

theorem fmt_v6 (ip : Ipv6Addr) (port : UInt16) (flowinfo scopeId : UInt32) :
    (SocketAddr.v6 ip port flowinfo scopeId).fmt =
      '[' :: (ip.fmt ++ zone scopeId ++ ']' :: ':' :: decimal port.toNat) := by
  rw [fmt, zone]
  split
  · rw [List.append_nil]
  · rw [List.append_assoc, List.cons_append]

theorem append_zone_inj {a b : Ipv6Addr} {scope scope' : UInt32}
    (h : a.fmt ++ zone scope = b.fmt ++ zone scope') : a = b ∧ scope = scope' := by
  have ha : '%' ∉ a.fmt := (IpAddr.v6 a).notMem_fmt (by decide)
  have hb : '%' ∉ b.fmt := (IpAddr.v6 b).notMem_fmt (by decide)
  rw [zone, zone] at h
  by_cases hscope : scope = 0
  · by_cases hscope' : scope' = 0
    · rw [if_pos hscope, if_pos hscope', List.append_nil, List.append_nil] at h
      exact ⟨Ipv6Addr.fmt_injective h, hscope.trans hscope'.symm⟩
    · rw [if_pos hscope, if_neg hscope', List.append_nil] at h
      exact absurd (h ▸ List.mem_append_right _ List.mem_cons_self) ha
  · by_cases hscope' : scope' = 0
    · rw [if_neg hscope, if_pos hscope', List.append_nil] at h
      exact absurd (h ▸ List.mem_append_right _ List.mem_cons_self) hb
    · rw [if_neg hscope, if_neg hscope', append_cons_inj ha hb] at h
      exact ⟨Ipv6Addr.fmt_injective h.1, UInt32.toNat_inj.mp (decimal_injective h.2)⟩

theorem notMem_zone {sep : Char} (hsep : sep.isAlphanum = false) (hpercent : sep ≠ '%')
    (scopeId : UInt32) : sep ∉ zone scopeId := by
  rw [zone]
  split
  · exact List.not_mem_nil
  · rw [List.mem_cons, not_or]
    exact ⟨hpercent, notMem_decimal hsep scopeId.toNat⟩

theorem port_inj {s t : UInt16} (h : decimal s.toNat = decimal t.toNat) : s = t :=
  UInt16.toNat_inj.mp (decimal_injective h)

theorem fmt_v4_ne_v6 (ip : Ipv4Addr) (port : UInt16) (ip' : Ipv6Addr) (port' : UInt16)
    (flowinfo scopeId : UInt32) :
    (SocketAddr.v4 ip port).fmt ≠ (SocketAddr.v6 ip' port' flowinfo scopeId).fmt := by
  rw [fmt_v6]
  intro h
  have hmem : '[' ∈ (SocketAddr.v4 ip port).fmt := by
    rw [h]
    exact List.mem_cons_self
  rw [fmt, List.mem_append, List.mem_cons] at hmem
  rcases hmem with hmem | hmem | hmem
  · exact (IpAddr.v4 ip).notMem_fmt (by decide) hmem
  · contradiction
  · exact notMem_decimal rfl port.toNat hmem

/-- A printed socket address shows its IP address, its port and its scope. -/
theorem fmt_inj {a b : SocketAddr} :
    a.fmt = b.fmt ↔ a.ip = b.ip ∧ a.port = b.port ∧ a.scopeId = b.scopeId := by
  constructor
  · intro h
    cases a with
    | v4 ip port =>
        cases b with
        | v4 ip' port' =>
            rw [fmt, fmt, append_cons_inj ip.colon_notMem_fmt ip'.colon_notMem_fmt] at h
            exact ⟨congrArg IpAddr.v4 (Ipv4Addr.fmt_injective h.1), port_inj h.2, rfl⟩
        | v6 ip' port' flowinfo' scopeId' => exact absurd h (fmt_v4_ne_v6 _ _ _ _ _ _)
    | v6 ip port flowinfo scopeId =>
        cases b with
        | v4 ip' port' => exact absurd h.symm (fmt_v4_ne_v6 _ _ _ _ _ _)
        | v6 ip' port' flowinfo' scopeId' =>
            have hbracket : ∀ (ip : Ipv6Addr) (scope : UInt32), ']' ∉ ip.fmt ++ zone scope := by
              intro ip scope hmem
              rcases List.mem_append.mp hmem with hmem | hmem
              · exact (IpAddr.v6 ip).notMem_fmt (by decide) hmem
              · exact notMem_zone rfl (by decide) scope hmem
            rw [fmt_v6, fmt_v6, List.cons.injEq,
              append_cons_inj (hbracket _ _) (hbracket _ _)] at h
            obtain ⟨hip, hscope⟩ := append_zone_inj h.2.1
            have hport := (List.cons.inj h.2.2).2
            exact ⟨congrArg IpAddr.v6 hip, port_inj hport, hscope⟩
  · intro h
    cases a <;> cases b <;> simp_all [ip, port, SocketAddr.scopeId, fmt]

theorem fmt_ne_ip (addr : SocketAddr) : addr.fmt ≠ addr.ip.fmt := by
  intro h
  cases addr with
  | v4 ip port =>
      have hcolon : ':' ∈ ip.fmt := by
        change _ = ip.fmt at h
        rw [← h]
        exact List.mem_append_right _ List.mem_cons_self
      exact ip.colon_notMem_fmt hcolon
  | v6 ip port flowinfo scopeId =>
      have hopen : '[' ∈ ip.fmt := by
        change _ = ip.fmt at h
        rw [← h, fmt_v6]
        exact List.mem_cons_self
      exact (IpAddr.v6 ip).notMem_fmt (by decide) hopen

theorem nul_notMem_fmt (addr : SocketAddr) : '\x00' ∉ addr.fmt := by
  have hip : '\x00' ∉ addr.ip.fmt := addr.ip.notMem_fmt (by decide)
  have hport : '\x00' ∉ decimal addr.port.toNat := notMem_decimal rfl _
  intro h
  cases addr with
  | v4 ip port =>
      rw [fmt, List.mem_append, List.mem_cons] at h
      rcases h with h | h | h
      · exact hip h
      · contradiction
      · exact hport h
  | v6 ip port flowinfo scopeId =>
      rw [fmt_v6, List.mem_cons, List.mem_append, List.mem_append, List.mem_cons,
        List.mem_cons] at h
      rcases h with h | (h | h) | h | h | h
      · contradiction
      · exact hip h
      · exact notMem_zone rfl (by decide) scopeId h
      · contradiction
      · contradiction
      · exact hport h

theorem toString_inj {a b : SocketAddr} :
    a.toString = b.toString ↔ a.ip = b.ip ∧ a.port = b.port ∧ a.scopeId = b.scopeId := by
  rw [← fmt_inj]
  exact ⟨fun h => String.ofList_injective h, fun h => congrArg String.ofList h⟩

theorem toString_ne_ip (addr : SocketAddr) : addr.toString ≠ addr.ip.toString := by
  intro h
  exact addr.fmt_ne_ip (String.ofList_injective h)

end SocketAddr

example : (SocketAddr.v6 ⟨#v[0xfe80, 0, 0, 0, 0, 0, 0xa, 1]⟩ 443 0 3).toString =
    "[fe80::a:1%3]:443" := by
  decide +kernel

end Tonggeret
