import Cuber.Http.Delimiting
import Cuber.Server.Forwarding

/-!
# The client address that is sent upstream

A proxy location with `X-Real-IP` among its `proxy_set_header` values stores the
peer address under that name in the header map of the request.  Header names are
the same in upper and lower case on the wire and differ in the map, so that a
header of the client in another spelling is sent beside the address.
-/

namespace Cuber.ClientAddress

open Cuber.Acceptance
open Cuber.Buffer
open Cuber.Config
open Cuber.ConnectionNames
open Cuber.Context
open Cuber.Delimiting
open Cuber.Execution
open Cuber.Forwarding
open Cuber.Handlers
open Cuber.Headers
open Cuber.Maps
open Cuber.Request
open Cuber.RoundTrip
open Cuber.Server
open Cuber.Text

def realIp : Bytes := ascii "X-Real-IP"

/-- A spelling of `X-Real-IP`. -/
def namesRealIp (field : Bytes) : Bool :=
  field.map tolower = realIp.map tolower

theorem namesRealIp_realIp : namesRealIp realIp = true := by
  decide

/-- The one header line with the name, in any spelling, has the address as its
value. -/
def StatesAddress (address : Bytes) (entries : List (Bytes × Bytes)) : Prop :=
  (entries.filter fun entry => namesRealIp entry.1).map Prod.snd = [address]

def ReportsAddress (address bytes : Bytes) : Prop :=
  ∃ head : RequestHead, ∃ after, bytes = head.bytes ++ after ∧
    StatesAddress address (head.lines.map entryOf)

/-- No header line of a message has the name in a spelling of its own. -/
def SpellsRealIp (bytes : Bytes) : Prop :=
  ∃ head : RequestHead, ∃ after, bytes = head.bytes ++ after ∧
    ∀ line ∈ head.lines, namesRealIp (entryOf line).1 = true → (entryOf line).1 = realIp

theorem reportsAddress_bytes_iff {address : Bytes} (head : RequestHead) (after : Bytes) :
    ReportsAddress address (head.bytes ++ after) ↔
      StatesAddress address (head.lines.map entryOf) := by
  constructor
  · rintro ⟨other, _, hbytes, hstates⟩
    rw [RequestHead.lines_unique hbytes]
    exact hstates
  · intro hstates
    exact ⟨head, after, rfl, hstates⟩

theorem spellsRealIp_bytes_iff (head : RequestHead) (after : Bytes) :
    SpellsRealIp (head.bytes ++ after) ↔
      ∀ line ∈ head.lines, namesRealIp (entryOf line).1 = true →
        (entryOf line).1 = realIp := by
  constructor
  · rintro ⟨other, _, hbytes, hspells⟩
    rw [RequestHead.lines_unique hbytes]
    exact hspells
  · intro hspells
    exact ⟨head, after, rfl, hspells⟩

/-! ## The header map -/

/-- A map in which the address is stored states it exactly when the name is not a
key in another spelling. -/
theorem statesAddress_entries_iff {address : Bytes} {headers : HeaderMap}
    (hstored : headers.find? realIp = some address) :
    StatesAddress address headers.entries ↔
      ∀ field, headers.find? field ≠ none → namesRealIp field = true → field = realIp := by
  have hmem := OrderedMap.find?_eq_some_iff.mp hstored
  constructor
  · intro hstates field hfield hnames
    obtain ⟨value, hvalue⟩ := Option.ne_none_iff_exists'.mp hfield
    -- both entries are the only one that passes the filter
    obtain ⟨entry, hentries, _⟩ := List.map_eq_singleton_iff.mp hstates
    have hown : (realIp, address) ∈
        headers.entries.filter fun entry => namesRealIp entry.1 :=
      List.mem_filter.mpr ⟨hmem, namesRealIp_realIp⟩
    have hother : (field, value) ∈
        headers.entries.filter fun entry => namesRealIp entry.1 :=
      List.mem_filter.mpr ⟨OrderedMap.find?_eq_some_iff.mp hvalue, hnames⟩
    rw [hentries, List.mem_singleton] at hown hother
    exact congrArg Prod.fst (hother.trans hown.symm)
  · intro hspells
    have hkeep : ∀ entry ∈ headers.entries,
        namesRealIp entry.1 = true ↔ entry.1 = realIp := by
      intro entry hentry
      have hfind : headers.find? entry.1 = some entry.2 :=
        OrderedMap.find?_eq_some_iff.mpr hentry
      constructor
      · exact hspells entry.1 (by simp [hfind])
      · intro hname
        rw [hname]
        exact namesRealIp_realIp
    rw [StatesAddress, filter_eq_singleton hkeep headers.nodup_keys hmem]
    rfl

/-- The keys of a received header map are the names in the header lines. -/
theorem find?_storeLines_ne_none_iff {lines : List Bytes} {field : Bytes}
    (hlines : ∀ line ∈ lines, IsHeaderLine line) :
    (storeLines OrderedMap.empty lines).find? field ≠ none ↔
      ∃ line ∈ lines, (entryOf line).1 = field := by
  rw [storeLines_eq_insertAll hlines, OrderedMap.find?_insertAll, OrderedMap.find?_empty,
    Option.or_none]
  constructor
  · intro hfound
    obtain ⟨value, hvalue⟩ := Option.ne_none_iff_exists'.mp hfound
    obtain ⟨line, hline, hentry⟩ := List.mem_map.mp (mem_of_lastValue hvalue)
    exact ⟨line, hline, congrArg Prod.fst hentry⟩
  · rintro ⟨line, hline, rfl⟩
    exact lastValue_ne_none (List.mem_map.mpr ⟨line, hline, rfl⟩)

/-- Where it is configured, `X-Real-IP` is the address of the peer. -/
theorem find?_addProxyHeaders_realIp {peerIp : Bytes} {setHeaders : List Bytes}
    (hset : realIp ∈ setHeaders) (request : HttpRequest) :
    (addProxyHeaders peerIp setHeaders request).headers.find? realIp = some peerIp := by
  induction setHeaders generalizing request with
  | nil => cases hset
  | cons setHeader setHeaders ih =>
      rw [addProxyHeaders, List.foldl_cons, ← addProxyHeaders]
      by_cases hfirst : setHeader = realIp
      · -- what is stored now is at most stored again
        apply addProxyHeaders_induction
          (motive := fun request => request.headers.find? realIp = some peerIp)
        · intro later field hlater _
          rw [HttpRequest.addHeader, OrderedMap.find?_insert]
          split_ifs
          · rfl
          · exact hlater
        · rw [if_pos (show setHeader = ascii "X-Real-IP" from hfirst), HttpRequest.addHeader,
            OrderedMap.find?_insert, if_pos (show realIp = ascii "X-Real-IP" from rfl)]
      · exact ih (List.mem_of_ne_of_mem (Ne.symm hfirst) hset) _

theorem not_isProxyHeader_of_namesRealIp {field : Bytes} (hnames : namesRealIp field = true)
    (hne : field ≠ realIp) : ¬ IsProxyHeader field := by
  rintro (rfl | rfl)
  · exact hne rfl
  · exact absurd hnames (by decide)

/-! ## Requests -/

def addressProxy : ProxyServer where
  location := ascii "/"
  upstreamName := ascii "up"
  setHeaders := [ascii "X-Real-IP"]

/-- An environment in which everything is forwarded with the address of the
peer. -/
def addressEnv : Environment where
  config := (ServerConfig.addProxy {} addressProxy).addUpstream
    { name := ascii "up", address := ascii "127.0.0.1:8080" }
  peerIp := ascii "10.0.0.1"

/-- What the two requests below have in common: each is forwarded through the
proxy that sets the address. -/
def isForwardedByAddressProxy (handled : Handled) : Bool :=
  handled.forwarded &&
    decide (addressEnv.config.proxyInfo handled.exchange.location = some addressProxy)

def spoofedBytes : Bytes := ascii "GET /x HTTP/1.1\r\nx-real-ip: 1.2.3.4\r\n\r\n"

def spoofedRequest : HttpRequest :=
  { plainRequest with
    headers := OrderedMap.empty.insert (ascii "x-real-ip") (ascii "1.2.3.4") }

def spoofedHead : RequestHead where
  method := ascii "GET"
  target := ascii "/x"
  version := ascii "HTTP/1.1"
  lines := [ascii "X-Real-IP: 10.0.0.1", ascii "x-real-ip: 1.2.3.4"]
  method_known := by decide
  target_spaces := by decide
  version_known := Or.inl rfl
  isLine := by decide
  isHeaderLines := by decide

end Cuber.ClientAddress
