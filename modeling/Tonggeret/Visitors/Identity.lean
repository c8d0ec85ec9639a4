import Tonggeret.Addresses
import Tonggeret.Visitors.Tracker

/-!
# Visitor identity

A visitor is told by the first `X-Forwarded-For` entry, or else by the peer of the
connection, and by the user agent.  The peer is printed with its port: one client on two
ports has two keys.
-/

namespace Tonggeret.Visitors

open Tonggeret.Lib

/-! ## Middleware -/

/-- What the middleware reads of a request: its headers under their lower-case names, and
the extension `ConnectInfo<SocketAddr>`. -/
structure Request (Value : Type) where
  headers : List (String × Value)
  connectInfo : Option SocketAddr

section

variable {Value : Type} (toStr : Value → Option String)

/-- `headers.get(name).and_then(|v| v.to_str().ok())`; `get` is the first value. -/
def Request.header (req : Request Value) (name : String) : Option String :=
  (req.headers.find? (·.1 = name)).bind fun entry => toStr entry.2

/-- Pick a region from CDN country headers (first valid wins). -/
def parseRegion (cfIpCountry vercelIpCountry cloudfrontViewerCountry : Option String) :
    String :=
  let raws := [cfIpCountry, vercelIpCountry, cloudfrontViewerCountry].filterMap id
  let codes := raws.map fun raw => toAsciiUppercase (trim raw)
  (codes.find? isCountryCode).getD regionUnknown

/-- The text before the first comma, trimmed, if anything is left. -/
def firstEntry (forwardedFor : Option String) : Option String :=
  (forwardedFor.map fun h => trim (String.ofList (h.toList.takeWhile (· != ',')))).filter
    (!·.isEmpty)

def visitorKey (forwardedFor : Option String) (peer userAgent : String) : String :=
  let ip := (firstEntry forwardedFor).getD peer
  ip ++ "\x00" ++ userAgent

namespace Request

variable (req : Request Value)

def forwarded : Option String := req.header toStr "x-forwarded-for"

/-- Empty if there is no readable `User-Agent`. -/
def userAgent : String := (req.header toStr "user-agent").getD ""

def peer : String := (req.connectInfo.map SocketAddr.toString).getD "direct"

end Request

namespace Axum

/-- The key and the region passed to `observe_visitor`. -/
def trackVisitors (req : Request Value) : String × String :=
  let region := parseRegion (req.header toStr "cf-ipcountry")
    (req.header toStr "x-vercel-ip-country") (req.header toStr "cloudfront-viewer-country")
  let key := visitorKey (req.forwarded toStr) req.peer (req.userAgent toStr)
  (key, region)

end Axum

/-! ## Clients -/

/-- `HeaderValue::to_str` admits visible ASCII and tab only. -/
def VisibleText : Prop :=
  ∀ value text, toStr value = some text →
    ∀ c ∈ text.toList, c = '\t' ∨ (32 ≤ c.toNat ∧ c.toNat < 127)

/-- The IP address of the client of a request over a connection from `addr`. -/
def clientIp (req : Request Value) (addr : SocketAddr) : String :=
  (firstEntry (req.forwarded toStr)).getD addr.ip.toString

/-- The connections do not blur who the clients are: two peers of one address share port and
scope, and no proxy reports the text of the other's peer. -/
def PeersAgree : Option String → SocketAddr → Option String → SocketAddr → Prop
  | some _, _, some _, _ => True
  | none, addr, none, addr' =>
      addr.ip = addr'.ip → addr.port = addr'.port ∧ addr.scopeId = addr'.scopeId
  | some entry, _, none, addr' => entry ≠ addr'.ip.toString ∧ entry ≠ addr'.toString
  | none, addr, some entry, _ => entry ≠ addr.ip.toString ∧ entry ≠ addr.toString

end

theorem append_nul_inj {ip ip' agent agent' : String} (hip : '\x00' ∉ ip.toList)
    (hip' : '\x00' ∉ ip'.toList) :
    ip ++ "\x00" ++ agent = ip' ++ "\x00" ++ agent' ↔ ip = ip' ∧ agent = agent' := by
  have htext : ∀ ip agent : String,
      (ip ++ "\x00" ++ agent).toList = ip.toList ++ '\x00' :: agent.toList := by
    intro ip agent
    rw [String.toList_append, String.toList_append, List.append_assoc]
    rfl
  rw [← String.toList_inj, htext, htext, append_cons_inj hip hip', String.toList_inj,
    String.toList_inj]

theorem mem_firstEntry {forwardedFor : Option String} {entry : String}
    (h : firstEntry forwardedFor = some entry) :
    ∃ text, forwardedFor = some text ∧ ∀ c ∈ entry.toList, c ∈ text.toList := by
  rw [firstEntry, Option.filter_eq_some_iff, Option.map_eq_some_iff] at h
  obtain ⟨⟨text, htext, rfl⟩, -⟩ := h
  refine ⟨text, htext, fun c hc => ?_⟩
  rw [trim, String.toList_ofList, String.toList_ofList] at hc
  exact (List.takeWhile_prefix _).subset
    ((List.dropWhile_suffix _).subset ((List.rdropWhile_prefix _ _).subset hc))

section

variable {Value : Type} {toStr : Value → Option String}

theorem nul_notMem_firstEntry (htoStr : VisibleText toStr) {req : Request Value}
    {entry : String} (h : firstEntry (req.forwarded toStr) = some entry) :
    '\x00' ∉ entry.toList := by
  intro hmem
  obtain ⟨text, htext, hsub⟩ := mem_firstEntry h
  rw [Request.forwarded, Request.header, Option.bind_eq_some_iff] at htext
  obtain ⟨value, -, hvalue⟩ := htext
  rcases htoStr value.2 text hvalue _ (hsub _ hmem) with hc | hc
  · contradiction
  · exact absurd hc.1 (by decide)

theorem nul_notMem_getD (htoStr : VisibleText toStr) (req : Request Value)
    (addr : SocketAddr) :
    '\x00' ∉ ((firstEntry (req.forwarded toStr)).getD addr.toString).toList := by
  cases hentry : firstEntry (req.forwarded toStr) with
  | some entry => exact nul_notMem_firstEntry htoStr hentry
  | none =>
      rw [Option.getD_none, SocketAddr.toString, String.toList_ofList]
      exact addr.nul_notMem_fmt

/-- Two keys are equal if the texts before the separator are, and the agents. -/
theorem key_eq_iff (htoStr : VisibleText toStr) {req req' : Request Value}
    {addr addr' : SocketAddr} (hpeer : req.connectInfo = some addr)
    (hpeer' : req'.connectInfo = some addr') :
    (Axum.trackVisitors toStr req).1 = (Axum.trackVisitors toStr req').1 ↔
      (firstEntry (req.forwarded toStr)).getD addr.toString =
          (firstEntry (req'.forwarded toStr)).getD addr'.toString ∧
        req.userAgent toStr = req'.userAgent toStr := by
  rw [Axum.trackVisitors, Axum.trackVisitors, visitorKey, visitorKey, Request.peer,
    Request.peer, hpeer, hpeer']
  exact append_nul_inj (nul_notMem_getD htoStr req addr) (nul_notMem_getD htoStr req' addr')

/-- An entry cannot be both of two different texts, so it is neither. -/
theorem eq_iff_eq_of_ne {entry peer ip : String} (hne : peer ≠ ip) :
    (entry = peer ↔ entry = ip) ↔ entry ≠ ip ∧ entry ≠ peer := by
  constructor
  · intro h
    exact ⟨fun hip => hne ((h.mpr hip).symm.trans hip),
      fun hpeer => hne (hpeer.symm.trans (h.mp hpeer))⟩
  · rintro ⟨hip, hpeer⟩
    exact iff_of_false hpeer hip

/-- The texts before the separator tell the clients apart exactly if the peers agree. -/
theorem peersAgree_iff (entry entry' : Option String) (addr addr' : SocketAddr) :
    (entry.getD addr.toString = entry'.getD addr'.toString ↔
      entry.getD addr.ip.toString = entry'.getD addr'.ip.toString) ↔
    PeersAgree entry addr entry' addr' := by
  cases entry with
  | some entry =>
      cases entry' with
      | some entry' => exact iff_of_true Iff.rfl trivial
      | none => exact eq_iff_eq_of_ne addr'.toString_ne_ip
  | none =>
      cases entry' with
      | some entry' =>
          rw [Option.getD_some, Option.getD_none, Option.getD_some, Option.getD_none,
            eq_comm, @eq_comm _ addr.ip.toString]
          exact eq_iff_eq_of_ne addr.toString_ne_ip
      | none =>
          rw [Option.getD_none, Option.getD_none, Option.getD_none, Option.getD_none,
            PeersAgree, SocketAddr.toString_inj, IpAddr.toString_injective.eq_iff]
          constructor
          · intro h hip
            exact (h.mpr hip).2
          · intro h
            exact ⟨fun hsame => hsame.1, fun hip => ⟨hip, h hip⟩⟩

end

/-- Keys stand for clients exactly where the agents differ or the peers agree. -/
theorem keys_identify_clients_iff {Value : Type} {toStr : Value → Option String}
    (htoStr : VisibleText toStr) {req req' : Request Value} {addr addr' : SocketAddr}
    (hpeer : req.connectInfo = some addr) (hpeer' : req'.connectInfo = some addr') :
    ((Axum.trackVisitors toStr req).1 = (Axum.trackVisitors toStr req').1 ↔
      clientIp toStr req addr = clientIp toStr req' addr' ∧
        req.userAgent toStr = req'.userAgent toStr) ↔
    req.userAgent toStr ≠ req'.userAgent toStr ∨
      PeersAgree (firstEntry (req.forwarded toStr)) addr
        (firstEntry (req'.forwarded toStr)) addr' := by
  rw [key_eq_iff htoStr hpeer hpeer', clientIp, clientIp, ← peersAgree_iff]
  by_cases hagent : req.userAgent toStr = req'.userAgent toStr
  · rw [and_iff_left hagent, and_iff_left hagent, or_iff_right (not_not_intro hagent)]
  · exact iff_of_true (iff_of_false (fun h => hagent h.2) (fun h => hagent h.2))
      (Or.inl hagent)

/-- `to_str` on the bytes of a value. -/
def visibleAscii (bytes : Bytes) : Option String :=
  if bytes.all (fun b => 32 ≤ b && b < 127 || b == 9) then
    some (String.ofList (bytes.map Char.ofUInt8))
  else none

theorem visibleText_visibleAscii : VisibleText visibleAscii := by
  intro bytes text h c hc
  rw [visibleAscii, Option.ite_none_right_eq_some, List.all_eq_true] at h
  obtain ⟨hvisible, htext⟩ := h
  rw [← Option.some.inj htext, String.toList_ofList] at hc
  obtain ⟨b, hb, rfl⟩ := List.mem_map.mp hc
  have hval : (Char.ofUInt8 b).toNat = b.toNat := UInt8.toNat_toUInt32 b
  have hrange := hvisible b hb
  rw [Bool.or_eq_true, Bool.and_eq_true, decide_eq_true_eq, decide_eq_true_eq,
    beq_iff_eq] at hrange
  rcases hrange with ⟨hlow, hhigh⟩ | rfl
  · rw [UInt8.le_iff_toNat_le] at hlow
    rw [UInt8.lt_iff_toNat_lt] at hhigh
    rw [hval]
    exact Or.inr ⟨hlow, hhigh⟩
  · exact Or.inl rfl

/-- `curl` from 10.0.0.1, at one of its ports. -/
def directRequest (port : UInt16) : Request Bytes where
  headers := [("user-agent", utf8 "curl")]
  connectInfo := some (.v4 ⟨#v[10, 0, 0, 1]⟩ port)

/-- A proxy's report of 203.0.113.7, on its own connection. -/
def proxiedRequest (forwardedFor : String) (port : UInt16) : Request Bytes where
  headers := [("x-forwarded-for", utf8 forwardedFor), ("user-agent", utf8 "curl")]
  connectInfo := some (.v4 ⟨#v[10, 0, 0, 1]⟩ port)

theorem keys_identify_clients_proxied :
    (Axum.trackVisitors visibleAscii (proxiedRequest "203.0.113.7, 70.41.3.18" 1)).1 =
        (Axum.trackVisitors visibleAscii (proxiedRequest " 203.0.113.7" 2)).1 ↔
      clientIp visibleAscii (proxiedRequest "203.0.113.7, 70.41.3.18" 1)
            (.v4 ⟨#v[10, 0, 0, 1]⟩ 1) =
          clientIp visibleAscii (proxiedRequest " 203.0.113.7" 2) (.v4 ⟨#v[10, 0, 0, 1]⟩ 2) ∧
        (proxiedRequest "203.0.113.7, 70.41.3.18" 1).userAgent visibleAscii =
          (proxiedRequest " 203.0.113.7" 2).userAgent visibleAscii := by
  have hentry : firstEntry
      ((proxiedRequest "203.0.113.7, 70.41.3.18" 1).forwarded visibleAscii) =
        some "203.0.113.7" := by decide +kernel
  have hentry' : firstEntry ((proxiedRequest " 203.0.113.7" 2).forwarded visibleAscii) =
      some "203.0.113.7" := by decide +kernel
  apply (keys_identify_clients_iff visibleText_visibleAscii rfl rfl).mpr
  rw [hentry, hentry']
  exact Or.inr trivial

/-- One client on ports 1 and 2 is two visitors. -/
theorem reconnecting_client_has_two_keys :
    (Axum.trackVisitors visibleAscii (directRequest 1)).1 = "10.0.0.1:1\x00curl" ∧
    (Axum.trackVisitors visibleAscii (directRequest 2)).1 = "10.0.0.1:2\x00curl" ∧
    clientIp visibleAscii (directRequest 1) (.v4 ⟨#v[10, 0, 0, 1]⟩ 1) =
      clientIp visibleAscii (directRequest 2) (.v4 ⟨#v[10, 0, 0, 1]⟩ 2) ∧
    (directRequest 1).userAgent visibleAscii = (directRequest 2).userAgent visibleAscii ∧
    ¬((Axum.trackVisitors visibleAscii (directRequest 1)).1 =
        (Axum.trackVisitors visibleAscii (directRequest 2)).1 ↔
      clientIp visibleAscii (directRequest 1) (.v4 ⟨#v[10, 0, 0, 1]⟩ 1) =
          clientIp visibleAscii (directRequest 2) (.v4 ⟨#v[10, 0, 0, 1]⟩ 2) ∧
        (directRequest 1).userAgent visibleAscii =
          (directRequest 2).userAgent visibleAscii) := by
  decide +kernel

example : parseRegion (some " zz9") (some "de ") (some "US") = "DE" := by decide +kernel

end Tonggeret.Visitors
