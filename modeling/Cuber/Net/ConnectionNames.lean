import Cuber.Config.ServerConfig

/-!
# Names of connections

A response finds its way back to a client through the names of connections: the
server numbers the connections it accepts, an upstream connection is named
after the client connection, with a percent sign in between, and the name of
the client is what precedes the first percent sign.  The names are formatted
into buffers of 64 and 32 bytes.  The first one is large enough; what is cut off
in the second one comes after the percent sign.
-/

namespace Cuber.ConnectionNames

open Cuber.Config
open Cuber.Text

/-- The text that `inet_ntop` makes of an address. -/
def IsIpText (text : Bytes) : Prop :=
  ∀ byte ∈ text, byte ∈ ascii "0123456789abcdef.:"

instance (text : Bytes) : Decidable (IsIpText text) :=
  inferInstanceAs (Decidable (∀ byte ∈ text, byte ∈ ascii "0123456789abcdef.:"))

/-- An address with its text, which is shorter than `INET6_ADDRSTRLEN`. -/
structure InetAddress where
  ip : Bytes
  port : Port
  ip_text : IsIpText ip
  ip_length : ip.length ≤ 45

def InetAddress.toIpPort (address : InetAddress) : Bytes :=
  address.ip ++ colon :: decimalText address.port.val

structure TcpServer where
  name : Bytes
  listenAddress : InetAddress
  name_percent : percent ∉ name

/-- The name that `TcpServer::newConnection` gives to a connection. -/
def TcpServer.connName (server : TcpServer) (nextConnId : ℕ) : Bytes :=
  server.name ++ snprintf 64 (minus ::
    (server.listenAddress.toIpPort ++ hash :: decimalText nextConnId))

/-- The name of the `TcpClient` for a request from a connection. -/
def proxyName (connName : Bytes) : Bytes := connName ++ [percent]

/-- The name that `TcpClient::newConnection` gives to its connection. -/
def upstreamConnName (clientName : Bytes) (peer : InetAddress) (nextConnId : ℕ) : Bytes :=
  clientName ++ snprintf 32 (colon :: (peer.toIpPort ++ hash :: decimalText nextConnId))

theorem percent_not_mem_toIpPort (address : InetAddress) : percent ∉ address.toIpPort := by
  rw [InetAddress.toIpPort, List.mem_append, List.mem_cons]
  rintro (hip | hcolon | hport)
  · exact absurd (address.ip_text percent hip) (by decide)
  · exact absurd hcolon (by decide)
  · exact not_mem_decimalText (by decide) _ hport

theorem length_toIpPort_le (address : InetAddress) : address.toIpPort.length ≤ 51 := by
  have hip := address.ip_length
  have hport : (decimalText address.port.val).length ≤ 5 :=
    length_decimalText_le (by decide) (address.port.isLt.trans (by decide))
  rw [InetAddress.toIpPort, List.length_append, List.length_cons]
  omega

namespace TcpServer

variable (server : TcpServer)

theorem percent_not_mem_connName (nextConnId : ℕ) : percent ∉ server.connName nextConnId := by
  rw [connName, List.mem_append]
  rintro (hname | hsuffix)
  · exact server.name_percent hname
  · have hmem := (List.take_sublist _ _).subset hsuffix
    rw [List.mem_cons, List.mem_append, List.mem_cons] at hmem
    rcases hmem with hminus | haddress | hhash | hnumber
    · exact absurd hminus (by decide)
    · exact percent_not_mem_toIpPort _ haddress
    · exact absurd hhash (by decide)
    · exact not_mem_decimalText (by decide) _ hnumber

/-- The number of a connection fits the buffer in which its name is formatted. -/
theorem connName_eq {nextConnId : ℕ} (hbound : nextConnId < 2 ^ 31) :
    server.connName nextConnId =
      (server.name ++ minus :: (server.listenAddress.toIpPort ++ [hash])) ++
        decimalText nextConnId := by
  have haddress := length_toIpPort_le server.listenAddress
  have hnumber : (decimalText nextConnId).length ≤ 10 :=
    length_decimalText_le (by decide) (hbound.trans (by decide))
  rw [connName, snprintf, List.take_of_length_le]
  · simp
  · simp only [List.length_cons, List.length_append]
    omega

/-- Connections with the same name are the same, as long as their numbers fit
an `int`. -/
theorem connName_injective {left right : ℕ} (hleft : left < 2 ^ 31) (hright : right < 2 ^ 31)
    (heq : server.connName left = server.connName right) : left = right := by
  rw [server.connName_eq hleft, server.connName_eq hright] at heq
  exact decimalText_injective (List.append_cancel_left heq)

end TcpServer

/-- What `HttpProxyHandler` looks up: the name of the client connection comes
back from the name of its `TcpClient` and of the upstream connection. -/
theorem cut_percent_proxyName {connName : Bytes} (hpercent : percent ∉ connName)
    (suffix : Bytes) :
    cut percent (proxyName connName ++ suffix) = some (connName, suffix) := by
  rw [proxyName, List.append_assoc]
  exact cut_append hpercent suffix

end Cuber.ConnectionNames
