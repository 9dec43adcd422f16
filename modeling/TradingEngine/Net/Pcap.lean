/-
`net/Pcap.cpp`, `net/Pcap.hpp`, `net/PktListener.hpp`: from the packets of a
capture file to the payloads of its UDP packets.

A packet is looked at where it was read to, so that what a short one lacks is
taken from an earlier one that was longer. Lengths are unsigned and wrap: a
payload has a place in the buffer and a length, and `buf` is what of it there
is in the buffer.

Addresses and ports stay in the order of the network, as the numbers that
their bytes make on a machine that has the least significant first.
-/
import TradingEngine.Core.Pcap
import TradingEngine.Net.PcapFileMux

namespace TradingEngine.Net

open Core.Pcap (FileReader Libpcap Source)
open Lib (Codec)
open OE (Bytes Timestamp)

-- ===================================================================== a call

/-- A call of `handle_payload`: the packet, where its payload is in the
buffer, and the length that is given. -/
structure PayloadCall where
  pkt : UDPPkt
  start : Nat
  len : Nat
  deriving DecidableEq, Repr

/-- `UDPPktListener::handle`: the UDP header is pulled off. -/
def handle (ipSrc : Nat) (udpSrc : Nat) (ipDst : Nat) (udpDst : Nat)
    (buffer : Bytes) (buf len : Nat) (ts : Timestamp) : PayloadCall :=
  let start := buf + 8
  let len := (len + 18446744073709551616 - 8) % 18446744073709551616
  { pkt :=
      { srcAddr := .ofNat ipSrc
        srcPort := .ofNat udpSrc
        addr := .ofNat ipDst
        port := .ofNat udpDst
        buf := Lib.bytesAt buffer start len
        ts }
    start
    len }

-- ===================================================================== frames

/-- `ETH_P_8021Q`. -/
def ethP8021Q : Nat := 0x8100

/-- `ETH_P_IP`. -/
def ethPIp : Nat := 0x0800

/-- `IPPROTO_UDP`. -/
def ipprotoUdp : Nat := 17

/-- `header_size` of `read_packets`. -/
def headerSize (data : Bytes) : Nat :=
  if Lib.be16 data 12 = ethP8021Q then 18 else 14

/-- `next_proto` of `read_packets`, after the tag of a VLAN. -/
def nextProto (data : Bytes) : Nat :=
  if Lib.be16 data 12 = ethP8021Q then Lib.be16 data 16
  else Lib.be16 data 12

/-- `ip_hdr_size_`: four times `ihl`, the low half of the first byte. -/
def ipHdrSize (data : Bytes) (ip : Nat) : Nat :=
  4 * ((Lib.byteAt data ip).toNat % 16)

-- ================================================================= the reader

/-- `UDPReader`, and the calls of its handler. -/
structure UDPReader (σ : Type) where
  /-- `m_pcap_p`; `none` once it was closed. -/
  file : Option (FileReader σ)
  ts : Timestamp
  pktLen : Nat
  bytesRead : UInt32
  ipSrcAddr : Nat
  ipDstAddr : Nat
  udpSrcPort : Nat
  udpDstPort : Nat
  /-- `m_last_channel`, once there was one. -/
  lastChannel : Option ((Nat × Nat) × (Nat × Nat))
  calls : List PayloadCall

namespace UDPReader

variable {σ : Type}

/-- The constructor, of a file that opened. -/
def init (file : FileReader σ) : UDPReader σ where
  file := some file
  ts := ⟨0, 0⟩
  pktLen := 0
  bytesRead := 0
  ipSrcAddr := 0
  ipDstAddr := 0
  udpSrcPort := 0
  udpDstPort := 0
  lastChannel := none
  calls := []

/-- `handle_eth_payload_`, of what is in the buffer from `buf` on. -/
def handleEthPayload (r : UDPReader σ) (proto : Nat) (buffer : Bytes)
    (buf len : Nat) (ts : Timestamp) : UDPReader σ :=
  if proto ≠ ethPIp then r
  else
    let hdrSize := ipHdrSize buffer buf
    let r := { r with
      ipSrcAddr := (Codec.nat 4).read buffer (buf + 12)
      ipDstAddr := (Codec.nat 4).read buffer (buf + 16)
      udpSrcPort := 0
      udpDstPort := 0 }
    if (Lib.byteAt buffer (buf + 9)).toNat = ipprotoUdp then
      let udp := buf + hdrSize
      let src := (Codec.nat 2).read buffer udp
      let dst := (Codec.nat 2).read buffer (udp + 2)
      let udpLen :=
        (len + 18446744073709551616 - hdrSize) % 18446744073709551616
      { r with
        udpSrcPort := src
        udpDstPort := dst
        lastChannel := some ((r.ipSrcAddr, src), (r.ipDstAddr, dst))
        calls := r.calls
          ++ [handle r.ipSrcAddr src r.ipDstAddr dst buffer udp udpLen ts] }
    else r

variable (read : Source σ) (lib : Libpcap)

/-- The loop of `read_packets`, for so many passes at most. -/
def readLoop (limit : Int) : Nat → Nat → UDPReader σ →
    Option (Int × UDPReader σ)
  | 0, _, _ => none
  | fuel + 1, count, r =>
      match r.file with
      | none => some (count, r)
      | some file =>
          if ¬ (limit < 0 ∨ (count : Int) < limit) then some (count, r)
          else
            match file.nextEx read lib with
            | (retval, hdr, file) =>
                if retval < 0 then
                  if retval = -2 then some (0, { r with file := none })
                  else some (-1, { r with file := some file })
                else
                  match hdr with
                  | none => some (-1, { r with file := some file })
                  | some hdr =>
                      -- the header in memory takes 24 bytes
                      let r := { r with
                        file := some file
                        bytesRead := r.bytesRead + .ofNat (24 + hdr.caplen) }
                      if hdr.len ≠ hdr.caplen then some (-1, r)
                      else if hdr.len = 0 then some (-1, r)
                      else
                        let ts := Timestamp.make hdr.sec hdr.usec
                        let r := { r with pktLen := hdr.len, ts }
                        let size := headerSize file.buffer
                        let payload :=
                          (hdr.caplen + 4294967296 - size) % 4294967296
                        readLoop limit fuel (count + 1)
                          (r.handleEthPayload (nextProto file.buffer)
                            file.buffer size payload ts)

/-- `read_packets`. -/
def readPackets (fuel : Nat) (limit : Int) (r : UDPReader σ) :
    Option (Int × UDPReader σ) :=
  readLoop read lib limit fuel 0 r

/-- `read_packets(1)`, which is at an end after one pass. -/
def readOne (r : UDPReader σ) : Int × UDPReader σ :=
  (readPackets read lib 2 1 r).getD (-1, r)

/-- `packets_from_reader`, for so many passes at most: a packet at a time
until one was handled, or there is none. -/
def packetsFromReader : Nat → Int → UDPReader σ → Option (Int × UDPReader σ)
  | 0, _, _ => none
  | fuel + 1, count, r =>
      let x := r.readOne read lib
      if x.1 ≤ 0 then some (count, x.2)
      else if x.2.calls.length > r.calls.length then some (count + x.1, x.2)
      else packetsFromReader fuel (count + x.1) x.2

end UDPReader

end TradingEngine.Net
