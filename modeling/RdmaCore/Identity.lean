/-
  The names of endpoints, channels and adapters (`get_id` and `info` of
  src/rdma_endpoint.cc, src/rdma_channel.cc and include/rdma_adapter.h).

  The addresses of a connection can be read back from the name of its adapter,
  whatever role and session the name ends with (`connector_eq_of_info_eq`).
-/
import RdmaCore.Lib.Text

namespace RdmaCore

/-- An IPv4 address. -/
structure Ipv4 where
  a : UInt8
  b : UInt8
  c : UInt8
  d : UInt8
  deriving DecidableEq, Repr

/-- `inet_ntoa` -/
def Ipv4.toText (ip : Ipv4) : String :=
  toString ip.a.toNat ++ "." ++ toString ip.b.toNat ++ "." ++ toString ip.c.toNat ++ "." ++
    toString ip.d.toNat

/-- The two ends of a connection, as `TCPConnector` holds them. -/
structure TCPConnector where
  myIp : Ipv4
  myPort : UInt16
  peerIp : Ipv4
  peerPort : UInt16
  deriving DecidableEq, Repr

/-- What names an endpoint: its connection, and role and id of its session. -/
structure EndPointId where
  connector : TCPConnector
  role : String
  sessionId : String
  deriving DecidableEq, Repr

namespace EndPointId

/-- `RDMASession::get_id` -/
def sessionGetId (e : EndPointId) : String := e.role ++ "@" ++ e.sessionId

/-- `RDMAEndPoint::get_id` -/
def getId (e : EndPointId) : String :=
  "[" ++ e.connector.myIp.toText ++ ":" ++ toString e.connector.myPort.toNat ++ "-->" ++
    e.connector.peerIp.toText ++ ":" ++ toString e.connector.peerPort.toNat ++ "]@" ++
    e.sessionGetId

/-- `RDMAChannel::get_id`, of the channel with the given id. -/
def channelGetId (e : EndPointId) (id : String) : String := "(" ++ id ++ ")" ++ e.getId

/-- `RDMAAdapter::info`, of the channel that every endpoint creates. -/
def info (e : EndPointId) : String := "RDMAAdapter@" ++ e.channelGetId "DataChannel"

end EndPointId

/-! ## Names determine addresses -/

theorem Ipv4.toText_sep_inj {c : Char} {ip ip' : Ipv4} {b b' : List Char} (hc : c.isDigit = false)
    (h : ip.toText.toList ++ c :: b = ip'.toText.toList ++ c :: b') : ip = ip' ∧ b = b' := by
  have hdot : ('.').isDigit = false := rfl
  simp only [toText, String.toList_append, List.append_assoc] at h
  obtain ⟨ha, h⟩ := Text.decimal_sep_inj hdot h
  obtain ⟨hb, h⟩ := Text.decimal_sep_inj hdot h
  obtain ⟨hc', h⟩ := Text.decimal_sep_inj hdot h
  obtain ⟨hd, hrest⟩ := Text.decimal_sep_inj hc h
  obtain ⟨a, b, c, d⟩ := ip
  obtain ⟨a', b', c', d'⟩ := ip'
  obtain rfl := UInt8.toNat_inj.1 ha
  obtain rfl := UInt8.toNat_inj.1 hb
  obtain rfl := UInt8.toNat_inj.1 hc'
  obtain rfl := UInt8.toNat_inj.1 hd
  exact ⟨rfl, hrest⟩

/-- **The name of an adapter determines the addresses of its connection.** -/
theorem EndPointId.connector_eq_of_info_eq {e e' : EndPointId} (h : e.info = e'.info) :
    e.connector = e'.connector := by
  have h := congrArg String.toList h
  simp only [info, channelGetId, getId, String.toList_append, List.append_assoc,
    List.append_cancel_left_eq] at h
  obtain ⟨hip, h⟩ := Ipv4.toText_sep_inj rfl h
  obtain ⟨hport, h⟩ := Text.decimal_sep_inj rfl h
  obtain ⟨hip', h⟩ := Ipv4.toText_sep_inj rfl (List.append_cancel_left h)
  obtain ⟨hport', -⟩ := Text.decimal_sep_inj rfl h
  obtain ⟨⟨ip, port, pip, pport⟩, role, session⟩ := e
  obtain ⟨⟨ip', port', pip', pport'⟩, role', session'⟩ := e'
  rw [TCPConnector.mk.injEq]
  exact ⟨hip, UInt16.toNat_inj.1 hport, hip', UInt16.toNat_inj.1 hport'⟩

end RdmaCore
