import Cuber.Http.Handler

/-!
# Addresses of upstream servers

The configuration gives the address of an upstream server as a text.
`HttpProxyHandler` takes it apart at the first colon for every request that it
forwards.  A text without a colon leaves the host empty, and the port is
whatever `std::stoi` makes of the rest, cut to 16 bits.  The host is read by
`inet_pton`, and where that fails the address is left as it was cleared.
-/

namespace Cuber.UpstreamAddresses

open Cuber.Config
open Cuber.Execution
open Cuber.Handlers
open Cuber.Request
open Cuber.Response
open Cuber.Text

/-! ## The address of the socket -/

abbrev InAddr := BitVec 32

structure SockaddrIn where
  port : Port := toPort 0
  addr : InAddr := 0
  deriving DecidableEq

section Addresses

variable (inetPton : Bytes → Option InAddr)

def fromIpPort (ip : Bytes) (port : Port) (addr : SockaddrIn) : SockaddrIn :=
  match inetPton (cStr ip) with
  | some found => { addr with port := port, addr := found }
  -- an error is logged
  | none => { addr with port := port }

/-- The constructor of `InetAddress`, for IPv4. -/
def inetAddress (ip : Bytes) (port : Port) : SockaddrIn :=
  fromIpPort inetPton ip port {}

/-- The text is an address in the notation that `inet_pton` takes. -/
def Denotes (ip : Bytes) (addr : InAddr) : Prop :=
  NUL ∉ ip ∧ inetPton ip = some addr

theorem cStr_of_not_mem {text : Bytes} (hnul : NUL ∉ text) : cStr text = text := by
  rw [cStr, List.takeWhile_eq_self_iff]
  intro byte hbyte
  apply decide_eq_true
  rintro rfl
  exact hnul hbyte

variable {inetPton}

theorem inetAddress_of_denotes {ip : Bytes} {addr : InAddr} (hdenotes : Denotes inetPton ip addr)
    (port : Port) : inetAddress inetPton ip port = ⟨port, addr⟩ := by
  rw [inetAddress, fromIpPort, cStr_of_not_mem hdenotes.1, hdenotes.2]

theorem inetAddress_of_none {ip : Bytes} (hnone : inetPton (cStr ip) = none) (port : Port) :
    inetAddress inetPton ip port = ⟨port, 0⟩ := by
  rw [inetAddress, fromIpPort, hnone]

end Addresses

/-! ## The upstream server -/

variable (inetPton : Bytes → Option InAddr) (env : Environment) (exchange : Exchange)

def ConnectsTo (target : SockaddrIn) : Prop :=
  ∃ (final : Exchange) (upstream : UpstreamAddress),
    HttpProxyHandler.handle env HttpDefaultHandler.handle exchange = .ret (.kForwarded, final) ∧
      final.log = exchange.log ++ [.proxied upstream] ∧
      inetAddress inetPton upstream.ip upstream.port = target

/-- A decimal number that is a port. -/
def IsPortText (text : Bytes) : Prop :=
  IsDecimal text ∧ decimalValue text < 65536

/-- The address text of an upstream server leads to the host and the port that it names, to
port 80 when it names none, and nowhere when what it names is no port. -/
structure FollowsAddress (address : Bytes) : Prop where
  withPort : ∀ ip text, address = ip ++ colon :: text → colon ∉ ip → IsPortText text →
    ∃ addr, Denotes inetPton ip addr ∧
      ConnectsTo inetPton env exchange ⟨Fin.ofNat 65536 (decimalValue text), addr⟩
  hostAlone : colon ∉ address → ∃ addr, Denotes inetPton address addr ∧
    ConnectsTo inetPton env exchange ⟨httpPort, addr⟩
  noPort : ∀ ip text, address = ip ++ colon :: text → colon ∉ ip → ¬ IsPortText text →
    ∀ target, ¬ ConnectsTo inetPton env exchange target

/-- `0.0.0.0` alone, an address that a port follows, or a text after the first colon that
`stoi` does not read. -/
def IsUnmistakable (address : Bytes) : Prop :=
  colon ∉ address ∧ Denotes inetPton address 0 ∨
    ∃ ip text, address = ip ++ colon :: text ∧ colon ∉ ip ∧
      (IsPortText text ∧ (∃ addr, Denotes inetPton ip addr) ∨ stoi text = none)

section Decoding

variable {inetPton env exchange} {proxy : ProxyServer}

/-- The request is forwarded to the address that is decoded. -/
theorem connectsTo_iff (hproxy : env.config.proxyInfo exchange.location = some proxy)
    (target : SockaddrIn) :
    ConnectsTo inetPton env exchange target ↔
      ∃ upstream, decodeAddress (env.config.upstreamInfo proxy.upstreamName).address =
          .ret upstream ∧ inetAddress inetPton upstream.ip upstream.port = target := by
  rw [ConnectsTo, proxyHandler_of_some hproxy]
  constructor
  · rintro ⟨final, upstream, hfinal, hlog, htarget⟩
    obtain ⟨decoded, hdecode, hret⟩ := Exec.bind_eq_ret_iff.mp hfinal
    cases hret
    have hsame := List.append_cancel_left hlog
    simp only [List.cons.injEq, Decision.proxied.injEq, and_true] at hsame
    exact ⟨upstream, hsame ▸ hdecode, htarget⟩
  · rintro ⟨upstream, hdecode, htarget⟩
    rw [hdecode]
    exact ⟨_, upstream, rfl, rfl, htarget⟩

theorem decodeAddress_of_not_mem {address : Bytes} (hcolon : colon ∉ address) :
    decodeAddress address = .ret ⟨[], httpPort⟩ := by
  rw [decodeAddress, cut_eq_none_iff.mpr hcolon]

theorem decodeAddress_append {ip : Bytes} (hip : colon ∉ ip) (text : Bytes) :
    decodeAddress (ip ++ colon :: text) =
      match stoi text with
      | none => .fault .uncaughtException
      | some value => .ret ⟨ip, toPort value⟩ := by
  cases hvalue : stoi text <;> simp only [decodeAddress, cut_append hip, hvalue]

theorem stoi_of_isPortText {text : Bytes} (htext : IsPortText text) :
    stoi text = some (decimalValue text : ℤ) := by
  have hport := htext.2
  rw [stoi_of_isDecimal htext.1, if_pos (by simp only [intMax]; omega)]

theorem toPort_natCast {value : ℕ} (hvalue : value < 65536) :
    toPort (value : ℤ) = Fin.ofNat 65536 value := by
  rw [toPort, Int.emod_eq_of_lt (by omega) (by omega), Int.toNat_natCast]

/-- The colon that the address is cut at is the first one. -/
theorem eq_of_cut {ip ip' text text' : Bytes} (hip : colon ∉ ip) (hip' : colon ∉ ip')
    (heq : ip ++ colon :: text = ip' ++ colon :: text') : ip = ip' ∧ text = text' := by
  have hcut := cut_append hip text
  rw [heq, cut_append hip' text'] at hcut
  simp only [Option.some.injEq, Prod.mk.injEq] at hcut
  exact ⟨hcut.1.symm, hcut.2.symm⟩

end Decoding

/-- The address of an upstream server is followed exactly when it cannot be mistaken. -/
theorem followsAddress_iff {inetPton : Bytes → Option InAddr} (hempty : inetPton [] = none)
    {env : Environment} {exchange : Exchange} {proxy : ProxyServer}
    (hproxy : env.config.proxyInfo exchange.location = some proxy) :
    FollowsAddress inetPton env exchange
        (env.config.upstreamInfo proxy.upstreamName).address ↔
      IsUnmistakable inetPton (env.config.upstreamInfo proxy.upstreamName).address := by
  have hconnects := @connectsTo_iff inetPton env exchange proxy hproxy
  generalize (env.config.upstreamInfo proxy.upstreamName).address = address at hconnects ⊢
  have hnowhere : ∀ port : Port, inetAddress inetPton [] port = ⟨port, 0⟩ :=
    inetAddress_of_none hempty
  constructor
  · intro hfollows
    by_cases hcolon : colon ∈ address
    · right
      obtain ⟨⟨ip, text⟩, hcut⟩ := Option.isSome_iff_exists.mp (cut_isSome_iff.mpr hcolon)
      obtain ⟨rfl, hip⟩ := cut_eq_some hcut
      refine ⟨ip, text, rfl, hip, ?_⟩
      by_cases hport : IsPortText text
      · obtain ⟨addr, hdenotes, -⟩ := hfollows.withPort ip text rfl hip hport
        exact Or.inl ⟨hport, addr, hdenotes⟩
      · right
        by_contra hreads
        obtain ⟨value, hvalue⟩ := Option.ne_none_iff_exists'.mp hreads
        apply hfollows.noPort ip text rfl hip hport (inetAddress inetPton ip (toPort value))
        rw [hconnects, decodeAddress_append hip, hvalue]
        exact ⟨_, rfl, rfl⟩
    · left
      obtain ⟨addr, hdenotes, halone⟩ := hfollows.hostAlone hcolon
      rw [hconnects, decodeAddress_of_not_mem hcolon] at halone
      obtain ⟨upstream, hret, htarget⟩ := halone
      cases hret
      rw [hnowhere] at htarget
      cases htarget
      exact ⟨hcolon, hdenotes⟩
  · rintro (⟨hcolon, hdenotes⟩ | ⟨ip, text, rfl, hip, htext⟩)
    · refine ⟨fun ip text haddress => ?_, fun _ => ⟨0, hdenotes, ?_⟩, fun ip text haddress => ?_⟩
      · simp [haddress] at hcolon
      · rw [hconnects, decodeAddress_of_not_mem hcolon]
        exact ⟨_, rfl, hnowhere httpPort⟩
      · simp [haddress] at hcolon
    · constructor
      · intro ip' text' haddress hip' hport
        obtain ⟨rfl, rfl⟩ := eq_of_cut hip hip' haddress
        have hreads := stoi_of_isPortText hport
        obtain ⟨addr, hdenotes⟩ : ∃ addr, Denotes inetPton ip addr := by
          rcases htext with ⟨-, hdenotes⟩ | hnone
          · exact hdenotes
          · cases hreads.symm.trans hnone
        refine ⟨addr, hdenotes, ?_⟩
        rw [hconnects, decodeAddress_append hip, hreads]
        refine ⟨_, rfl, ?_⟩
        dsimp only
        rw [inetAddress_of_denotes hdenotes, toPort_natCast hport.2]
      · intro hcolon
        simp at hcolon
      · intro ip' text' haddress hip' hport target hattempt
        obtain ⟨rfl, rfl⟩ := eq_of_cut hip hip' haddress
        have hnone := htext.resolve_left fun hboth => hport hboth.1
        rw [hconnects, decodeAddress_append hip, hnone] at hattempt
        obtain ⟨upstream, hret, -⟩ := hattempt
        cases hret

def upstreamEnv (address : Bytes) : Environment where
  config := (ServerConfig.addProxy {}
    { location := ascii "/", upstreamName := ascii "up" }).addUpstream
      { name := ascii "up", address := address }

def rootGet : Exchange where
  request := { method := .kGet, version := .kHttp11, path := ascii "/" }
  input := []

/-- The value of a decimal number of at most three digits, not more than 255. -/
def octet (digits : Bytes) : Option ℕ :=
  if digits ≠ [] ∧ digits.length ≤ 3 ∧ digits.all isdigit ∧ decimalValue digits < 256 then
    some (decimalValue digits)
  else none

/-- An `inet_pton` for texts in dotted-decimal notation. -/
def dottedDecimal (text : Bytes) : Option InAddr :=
  match text.splitOn dot with
  | [first, second, third, fourth] => do
      let values ← [first, second, third, fourth].mapM octet
      return BitVec.ofNat 32 (values.foldl (fun value octet => value * 256 + octet) 0)
  | _ => none

theorem followsAddress_of_port :
    FollowsAddress dottedDecimal (upstreamEnv (ascii "10.0.0.1:8080")) rootGet
      (ascii "10.0.0.1:8080") := by
  have hproxy : (upstreamEnv (ascii "10.0.0.1:8080")).config.proxyInfo rootGet.location =
      some { location := ascii "/", upstreamName := ascii "up" } := rfl
  have hport : IsPortText (ascii "8080") := ⟨by decide +kernel, by decide +kernel⟩
  have hdenotes : Denotes dottedDecimal (ascii "10.0.0.1") 0x0a000001 :=
    ⟨by decide +kernel, by decide +kernel⟩
  exact (followsAddress_iff (by decide +kernel) hproxy).mpr
    (Or.inr ⟨ascii "10.0.0.1", ascii "8080", rfl, by decide, Or.inl ⟨hport, _, hdenotes⟩⟩)

/-- A host alone is lost: the connection goes to port 80 of `0.0.0.0`. -/
theorem host_alone_is_lost :
    ¬ FollowsAddress dottedDecimal (upstreamEnv (ascii "10.0.0.1")) rootGet
      (ascii "10.0.0.1") := by
  intro hfollows
  obtain ⟨addr, hdenotes, final, upstream, hfinal, hlog, htarget⟩ :=
    hfollows.hostAlone (by decide)
  have hhandle : HttpProxyHandler.handle (upstreamEnv (ascii "10.0.0.1"))
      HttpDefaultHandler.handle rootGet =
        .ret (.kForwarded, { rootGet with log := [.proxied ⟨[], httpPort⟩] }) := rfl
  cases hhandle.symm.trans hfinal
  have hupstream : upstream = ⟨[], httpPort⟩ := by
    have hsame : [Decision.proxied ⟨[], httpPort⟩] = [.proxied upstream] := hlog
    simpa using hsame.symm
  have hnowhere : inetAddress dottedDecimal [] httpPort = ⟨httpPort, 0⟩ :=
    inetAddress_of_none (by decide +kernel) httpPort
  rw [hupstream, hnowhere] at htarget
  cases htarget
  exact absurd hdenotes.2 (by decide +kernel)

end Cuber.UpstreamAddresses
