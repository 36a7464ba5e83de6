import PpcaNetwork.Lib.Net
import PpcaNetwork.Lib.Numerals
import PpcaNetwork.Lib.Octets

/-!
# SOCKS5 addresses

`socks5_proto.rs`: the form of an address on the wire, and what it resolves to.

* `Address.fromSocks5` — reads an address, and says how many bytes it has.
* `Address.resolveIpv4` — the socket address for a datagram; `lookupHost` is the name
  service of the system.
* `fromSocks5_le` — an address that is read lies within the data.
* `fromSocks5_ipv4` — an IPv4 address is read back.
-/

namespace PpcaNetwork.MyProxy

/-- `Ipv6Addr`. -/
structure Ipv6Addr where
  octets : List UInt8
  length_octets : octets.length = 16
  deriving DecidableEq

/-- `IpAddr`. -/
inductive IpAddr where
  | v4 (ip : Ipv4Addr)
  | v6 (ip : Ipv6Addr)
  deriving DecidableEq

/-- `SocketAddr`. -/
inductive SocketAddr where
  | v4 (ip : Ipv4Addr) (port : UInt16)
  | v6 (ip : Ipv6Addr) (port : UInt16) (flowinfo scopeId : UInt32)
  deriving DecidableEq

namespace SocketAddr

/-- `SocketAddr::ip`. -/
def ip : SocketAddr → IpAddr
  | v4 ip _ => .v4 ip
  | v6 ip _ _ _ => .v6 ip

/-- `SocketAddr::is_ipv4`. -/
def isIpv4 : SocketAddr → Bool
  | v4 _ _ => true
  | v6 _ _ _ _ => false

end SocketAddr

/-- `Ipv4Addr::octets`. -/
def octetsOf (ip : Ipv4Addr) : List UInt8 := [ip.a, ip.b, ip.c, ip.d]

/-- `io::ErrorKind`: those that the program itself gives, and all others. -/
inductive ErrorKind where
  | unexpectedEof
  | invalidData
  | addrNotAvailable
  | connectionRefused
  | other
  deriving DecidableEq

/-- `io::Error`. -/
structure IoError where
  kind : ErrorKind
  message : Text
  deriving DecidableEq

/-- `ProxyError`. -/
inductive ProxyError where
  | io (e : IoError)
  | socksInvalidVersion (v : UInt8)
  | socksMethodNotSupported
  | socksInvalidCommand (c : UInt8)
  | socksInvalidAddressType (a : UInt8)
  | dnsResolutionFailed (domain : Text)
  deriving DecidableEq

/-- `Address`: what a request or a datagram names as its target. -/
inductive Address where
  | ipv4 (ip : Ipv4Addr) (port : UInt16)
  | ipv6 (ip : Ipv6Addr) (port : UInt16)
  | domain (name : Text) (port : UInt16)
  deriving DecidableEq

namespace Address

/-- `Address::from_socks5`. -/
def fromSocks5 (data : List UInt8) : Except ProxyError (Address × Nat) :=
  if hempty : data.length = 0 then .error (.socksInvalidAddressType 0xFF)
  else
    let atyp := data[0]
    if atyp = 0x01 then
      if h : data.length < 7 then .error (.io ⟨.unexpectedEof, utf8 "地址数据不完整"⟩)
      else .ok (.ipv4 ⟨data[1], data[2], data[3], data[4]⟩ (ofOctets16 data[5] data[6]), 7)
    else if atyp = 0x03 then
      if h : data.length < 2 then .error (.io ⟨.unexpectedEof, utf8 "域名长度字段不完整"⟩)
      else
        let domainLen := data[1].toNat
        if hend : data.length < 2 + domainLen + 2 then .error (.io ⟨.unexpectedEof, utf8 "域名数据不完整"⟩)
        else
          let domain := (data.drop 2).take domainLen
          if isUtf8 domain then
            .ok (.domain domain (ofOctets16 data[2 + domainLen] data[2 + domainLen + 1]),
              2 + domainLen + 2)
          else .error (.io ⟨.invalidData, utf8 "域名不是有效的UTF-8编码"⟩)
    else if atyp = 0x04 then
      if h : data.length < 19 then .error (.io ⟨.unexpectedEof, utf8 "IPv6地址数据不完整"⟩)
      else
        .ok (.ipv6 ⟨(data.drop 1).take 16, by simp; omega⟩ (ofOctets16 data[17] data[18]), 19)
    else .error (.socksInvalidAddressType atyp)

/-- `Address::resolve_ipv4`, with what `tokio::net::lookup_host` gives for a host and port. -/
def resolveIpv4 (lookupHost : Text → Except IoError (List SocketAddr)) :
    Address → Except ProxyError SocketAddr
  | ipv4 ip port => .ok (.v4 ip port)
  | ipv6 _ _ => .error (.io ⟨.addrNotAvailable, utf8 "UDP reply要求IPv4地址，但目标是IPv6"⟩)
  | domain name port =>
    match lookupHost (name ++ utf8 ":" ++ decimal port.toNat) with
    | .error e => .error (.io e)
    | .ok addrs =>
      match addrs.find? SocketAddr.isIpv4 with
      | some addr => .ok addr
      | none => .error (.dnsResolutionFailed name)

/-- What is read of an address lies within the data. -/
theorem fromSocks5_le {data : List UInt8} {addr : Address} {n : Nat}
    (h : fromSocks5 data = .ok (addr, n)) : n ≤ data.length := by
  unfold fromSocks5 at h
  dsimp only at h
  split at h
  · cases h
  · split at h
    · split at h <;> cases h
      omega
    · split at h
      · split at h
        · cases h
        · split at h
          · cases h
          · split at h <;> cases h
            omega
      · split at h
        · split at h <;> cases h
          omega
        · cases h

/-- An IPv4 address is read back, whatever follows it. -/
theorem fromSocks5_ipv4 (ip : Ipv4Addr) (port : UInt16) (rest : List UInt8) :
    fromSocks5 (0x01 :: octetsOf ip ++ octets16 port ++ rest) = .ok (.ipv4 ip port, 7) := by
  unfold fromSocks5
  simp [octetsOf, octets16, ofOctets16_octets16]

end Address
end PpcaNetwork.MyProxy
