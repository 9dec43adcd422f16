/-
What a capture file gives to the mux, from its bytes.

# Records

A file is a header, records, and what is left of one that was cut off. Each
record is read to its end (`nextPacket_saved`), until the first that the
reader does not take: one that is empty, longer than any packet, or not
captured whole. There it stops, whatever follows.

# Frames

A packet is looked at where it was read to, over what was there before; but
with all its headers in it nothing before it is looked at
(`handleEthPayload_append`). So a frame made of headers and a payload is taken
apart into the same, and the payload given is all that follows the UDP header.

# One packet at a time

`Yields` is what the mux takes a reader for: a list of packets, of which
each call of `read_packets(1)` handles one.
-/
import TradingEngine.Net.Pcap

namespace TradingEngine.Net

open Core.Pcap (FileHeader FileReader FileType Libpcap Pkthdr Serves Source)
open Lib (Codec)
open OE (Bytes Timestamp)

-- ===================================================================== records

/-- A record of a file. -/
structure SavedPacket where
  hdr : Pkthdr
  data : Bytes
  deriving DecidableEq

namespace SavedPacket

def bytes (p : SavedPacket) : Bytes := Pkthdr.codec.encode p.hdr ++ p.data

/-- The header fits, and says how much follows. -/
structure Saved (p : SavedPacket) : Prop where
  holds : Pkthdr.codec.Holds p.hdr
  caplen : p.hdr.caplen = p.data.length

/-- A record that is taken: one that has something, and all of it. -/
def Taken (p : SavedPacket) : Prop :=
  p.data ≠ [] ∧ p.data.length ≤ Core.Pcap.maximumSnaplen ∧
    p.hdr.len = p.hdr.caplen

/-- The header as the reader has it. -/
def header (p : SavedPacket) (filetype : FileType) : Pkthdr :=
  { p.hdr with usec := Core.Pcap.nanoseconds p.hdr.usec filetype }

/-- When the packet was captured. -/
def ts (p : SavedPacket) (filetype : FileType) : Timestamp :=
  .make (p.header filetype).sec (p.header filetype).usec

end SavedPacket

/-- What is left at the end of a file: less than a header, or a header and
less than it says. -/
def CutOff (tail : Bytes) : Prop :=
  tail.length < Pkthdr.codec.size ∨
    tail.length < Pkthdr.codec.size
      + (Pkthdr.codec.decode (tail.take Pkthdr.codec.size)).caplen

section Records

variable {σ : Type} {read : Source σ} {holds : σ → Bytes → Prop}
  (hserves : Serves read holds)

include hserves

/-- Bytes that are there are read. -/
theorem read_append {s : σ} {bs rest : Bytes} (h : holds s (bs ++ rest)) :
    (read s bs.length).ret = bs.length ∧ (read s bs.length).bytes = bs ∧
      holds (read s bs.length).source rest := by
  refine ⟨?_, ?_, ?_⟩
  · rw [hserves.ret s _ _ h, List.length_append,
      Nat.min_eq_left (Nat.le_add_right _ _)]
  · rw [hserves.bytes s _ _ h, List.take_left]
  · have hnext := hserves.next s _ bs.length h
    rwa [List.drop_left] at hnext

/-- A record is read to its end, if it is no longer than a packet can be. -/
theorem nextPacket_saved {f : FileReader σ} {p : SavedPacket} {rest : Bytes}
    (hp : p.Saved) (h : holds f.source (p.bytes ++ rest))
    (hlong : p.data.length ≤ Core.Pcap.maximumSnaplen) :
    ∃ source, holds source rest ∧ f.nextPacket read
      = if p.data = [] then
          (1, none, { f with source, buffer := f.buffer })
        else (0, some (p.header f.filetype),
          { f with source, buffer := p.data ++ f.buffer.drop p.data.length })
        := by
  have hsize := Pkthdr.codec.length_encode p.hdr
  have hheader : holds f.source
      (Pkthdr.codec.encode p.hdr ++ (p.data ++ rest)) := by
    rw [← List.append_assoc]
    exact h
  obtain ⟨hret, hbytes, hnext⟩ := read_append hserves hheader
  rw [hsize] at hret hbytes hnext
  obtain ⟨hret', hbytes', hnext'⟩ := read_append hserves hnext
  refine ⟨_, hnext', ?_⟩
  unfold FileReader.nextPacket
  dsimp only
  rw [if_pos hret, hbytes, Pkthdr.codec.decode_encode hp.holds, hp.caplen,
    if_neg (Nat.not_lt.mpr hlong), hret', hbytes']
  by_cases hempty : p.data = []
  · rw [if_pos hempty, hempty]
    rfl
  · have hpos : 0 < p.data.length := List.length_pos_iff.mpr hempty
    rw [if_neg hempty, if_pos ⟨by omega, rfl⟩]
    unfold SavedPacket.header Core.Pcap.overwrite
    dsimp only
    rw [hp.caplen]

/-- A record longer than any packet is an error. -/
theorem nextPacket_long {f : FileReader σ} {p : SavedPacket} {rest : Bytes}
    (hp : p.Saved) (h : holds f.source (p.bytes ++ rest))
    (hlong : Core.Pcap.maximumSnaplen < p.data.length) :
    ∃ f', f.nextPacket read = (-1, none, f') := by
  have hsize := Pkthdr.codec.length_encode p.hdr
  have hheader : holds f.source
      (Pkthdr.codec.encode p.hdr ++ (p.data ++ rest)) := by
    rw [← List.append_assoc]
    exact h
  obtain ⟨hret, hbytes, -⟩ := read_append hserves hheader
  rw [hsize] at hret hbytes
  refine ⟨{ f with source := (read f.source Pkthdr.codec.size).source }, ?_⟩
  unfold FileReader.nextPacket
  dsimp only
  rw [if_pos hret, hbytes, Pkthdr.codec.decode_encode hp.holds, hp.caplen,
    if_pos hlong]

/-- At the end of the file there is no packet. -/
theorem nextPacket_cutOff {f : FileReader σ} {tail : Bytes}
    (h : holds f.source tail) (htail : CutOff tail) :
    ∃ status f', f.nextPacket read = (status, none, f') ∧
      (status = 1 ∨ status = -1) := by
  have hret := hserves.ret _ _ Pkthdr.codec.size h
  unfold FileReader.nextPacket
  dsimp only
  by_cases hshort : tail.length < Pkthdr.codec.size
  · rw [Nat.min_eq_right (Nat.le_of_lt hshort)] at hret
    rw [hret, if_neg (by omega)]
    split
    · exact ⟨1, _, rfl, .inl rfl⟩
    · exact ⟨-1, _, rfl, .inr rfl⟩
  · have hcut := htail.resolve_left hshort
    rw [Nat.min_eq_left (Nat.not_lt.mp hshort)] at hret
    have hnext := hserves.next _ _ Pkthdr.codec.size h
    have hret' := hserves.ret _ _
      (Pkthdr.codec.decode (tail.take Pkthdr.codec.size)).caplen hnext
    rw [List.length_drop, Nat.min_eq_right (by omega)] at hret'
    rw [if_pos hret, hserves.bytes _ _ _ h]
    split
    · exact ⟨-1, _, rfl, .inr rfl⟩
    · rw [hret', if_neg (by omega)]
      split
      · exact ⟨-1, _, rfl, .inr rfl⟩
      · rw [if_neg (by omega)]
        exact ⟨-1, _, rfl, .inr rfl⟩

end Records

-- ====================================================================== frames

/-- A UDP packet over IPv4. -/
def IsUdp (data : Bytes) : Prop :=
  nextProto data = ethPIp ∧
    (Lib.byteAt data (headerSize data + 9)).toNat = ipprotoUdp

instance (data : Bytes) : Decidable (IsUdp data) := by
  unfold IsUdp
  infer_instance

/-- Where the UDP header begins. -/
def udpStart (data : Bytes) : Nat :=
  headerSize data + ipHdrSize data (headerSize data)

/-- All the headers that are looked at are in the packet. -/
structure Framed (data : Bytes) : Prop where
  eth : 14 ≤ data.length
  vlan : Lib.be16 data 12 = ethP8021Q → 18 ≤ data.length
  ip : nextProto data = ethPIp → headerSize data + 20 ≤ data.length
  udp : IsUdp data → udpStart data + 8 ≤ data.length

/-- The UDP packet that is in a packet, by what its headers say. -/
def udpPkt (data : Bytes) (ts : Timestamp) : UDPPkt where
  srcAddr := .ofNat ((Codec.nat 4).read data (headerSize data + 12))
  srcPort := .ofNat ((Codec.nat 2).read data (udpStart data))
  addr := .ofNat ((Codec.nat 4).read data (headerSize data + 16))
  port := .ofNat ((Codec.nat 2).read data (udpStart data + 2))
  buf := data.drop (udpStart data + 8)
  ts

/-- The packet that the mux gets from a record. -/
def SavedPacket.packet (p : SavedPacket) (filetype : FileType) : Packet :=
  if IsUdp p.data then some (udpPkt p.data (p.ts filetype)) else none

section Frames

/-- What a codec reads is not changed by what follows. -/
theorem read_codec_append {α : Type} (c : Codec α) {bs : Bytes} {i : Nat}
    (h : i + c.size ≤ bs.length) (rest : Bytes) :
    c.read (bs ++ rest) i = c.read bs i := by
  unfold Codec.read
  rw [Lib.bytesAt_append h]

variable {data : Bytes}

/-- The Ethernet header is known from the frame. -/
theorem headerSize_append (h : Framed data) (rest : Bytes) :
    headerSize (data ++ rest) = headerSize data := by
  unfold headerSize
  rw [Lib.be16_append (by have := h.eth; omega)]

/-- So is the protocol behind it. -/
theorem nextProto_append (h : Framed data) (rest : Bytes) :
    nextProto (data ++ rest) = nextProto data := by
  have heth := h.eth
  unfold nextProto
  rw [Lib.be16_append (by omega)]
  by_cases hvlan : Lib.be16 data 12 = ethP8021Q
  · have := h.vlan hvlan
    rw [if_pos hvlan, if_pos hvlan, Lib.be16_append (by omega)]
  · rw [if_neg hvlan, if_neg hvlan]

/-- What was in the buffer before is not looked at. -/
theorem handleEthPayload_append {σ : Type} (r : UDPReader σ)
    (h : Framed data) (hlong : data.length ≤ Core.Pcap.maximumSnaplen)
    (rest : Bytes) (ts : Timestamp) :
    ∃ cs, (r.handleEthPayload (nextProto (data ++ rest)) (data ++ rest)
        (headerSize (data ++ rest))
        ((data.length + 4294967296 - headerSize (data ++ rest)) % 4294967296)
        ts).calls = r.calls ++ cs ∧
      cs.map PayloadCall.pkt
        = (if IsUdp data then some (udpPkt data ts) else none).toList ∧
      ∀ c ∈ cs, c.start + c.len = data.length := by
  rw [headerSize_append h, nextProto_append h]
  unfold UDPReader.handleEthPayload
  by_cases hproto : nextProto data = ethPIp
  · have hip := h.ip hproto
    rw [if_neg (not_not_intro hproto)]
    dsimp only
    rw [Lib.byteAt_append (by omega)]
    by_cases hudp : (Lib.byteAt data (headerSize data + 9)).toNat = ipprotoUdp
    · have hisUdp : IsUdp data := ⟨hproto, hudp⟩
      have hroom := h.udp hisUdp
      have hstart : headerSize data + ipHdrSize (data ++ rest)
          (headerSize data) = udpStart data := by
        unfold udpStart ipHdrSize
        rw [Lib.byteAt_append (by omega)]
      have hihl : ipHdrSize (data ++ rest) (headerSize data)
          = udpStart data - headerSize data := by omega
      unfold Core.Pcap.maximumSnaplen at hlong
      have hlen : ((data.length + 4294967296 - headerSize data) % 4294967296
          + 18446744073709551616 - (udpStart data - headerSize data))
            % 18446744073709551616 = data.length - udpStart data := by
        omega
      have hpayload : (data.length - udpStart data + 18446744073709551616 - 8)
          % 18446744073709551616 = data.length - (udpStart data + 8) := by
        omega
      have hsrc : headerSize data + 12 + 4 ≤ data.length := by omega
      have hport : udpStart data + 2 ≤ data.length := by omega
      have hport' : udpStart data + 2 + 2 ≤ data.length := by omega
      rw [if_pos hudp, hstart, hihl, hlen]
      refine ⟨_, rfl, ?_, ?_⟩
      · rw [if_pos hisUdp]
        unfold handle udpPkt
        dsimp only [List.map_cons, List.map_nil, Option.toList]
        rw [hpayload, Lib.bytesAt_append (by omega),
          read_codec_append (.nat 4) (i := headerSize data + 12) hsrc,
          read_codec_append (.nat 4) (i := headerSize data + 16) hip,
          read_codec_append (.nat 2) (i := udpStart data) hport,
          read_codec_append (.nat 2) (i := udpStart data + 2) hport']
        unfold Lib.bytesAt
        rw [List.take_of_length_le (by rw [List.length_drop])]
        rfl
      · intro c hc
        rw [List.mem_singleton.mp hc]
        unfold handle
        dsimp only
        rw [hpayload]
        omega
    · have hnot : ¬ IsUdp data := fun h => hudp h.2
      rw [if_neg hudp, if_neg hnot]
      exact ⟨[], (List.append_nil _).symm, rfl, List.forall_mem_nil _⟩
  · have hnot : ¬ IsUdp data := fun h => hproto h.1
    rw [if_pos hproto, if_neg hnot]
    exact ⟨[], (List.append_nil _).symm, rfl, List.forall_mem_nil _⟩

end Frames

-- =============================================================== one at a time

/-- What the mux takes a reader for: `read_packets(1)` returns 1 for each of
the packets, after a call of the handler if it is one that is handled, with a
payload that ends where the packet does; and for none of them 0 or less. -/
def Yields {σ : Type} (read : Source σ) (lib : Libpcap) (r : UDPReader σ) :
    List Packet → Prop
  | [] => (r.readOne read lib).1 ≤ 0 ∧
      (r.readOne read lib).2.calls = r.calls
  | p :: ps => (r.readOne read lib).1 = 1 ∧
      (∃ cs, (r.readOne read lib).2.calls = r.calls ++ cs ∧
        cs.map PayloadCall.pkt = p.toList ∧
        ∀ c ∈ cs, c.start + c.len = (r.readOne read lib).2.pktLen) ∧
      Yields read lib (r.readOne read lib).2 ps

section Yields

variable {σ : Type} {read : Source σ} {holds : σ → Bytes → Prop}
  (lib : Libpcap)

/-- What `next_ex` returns, for what there is. -/
theorem nextEx_packet {f f' : FileReader σ} {hdr : Option Pkthdr}
    (hnext : f.nextPacket read = (0, hdr, f')) :
    f.nextEx read lib = (1, hdr, f') := by
  unfold FileReader.nextEx
  simp [hnext, lib.packet]

/-- `pcap_next_ex` reports the end of a file. -/
theorem nextEx_eof {f f' : FileReader σ} {hdr : Option Pkthdr}
    (hnext : f.nextPacket read = (1, hdr, f')) :
    f.nextEx read lib = (-2, hdr, f') := by
  unfold FileReader.nextEx
  simp [hnext, lib.eof]

/-- And an error. -/
theorem nextEx_error {f f' : FileReader σ} {hdr : Option Pkthdr}
    (hnext : f.nextPacket read = (-1, hdr, f')) :
    f.nextEx read lib = (-1, hdr, f') := by
  unfold FileReader.nextEx
  simp [hnext, lib.error]

/-- Where there is no packet, the reader stops. -/
theorem readOne_stop {r : UDPReader σ} {f f' : FileReader σ}
    (hf : r.file = some f) {status : Int}
    (hnext : f.nextPacket read = (status, none, f'))
    (hstatus : status = 1 ∨ status = -1) :
    (r.readOne read lib).1 ≤ 0 ∧ (r.readOne read lib).2.calls = r.calls := by
  unfold UDPReader.readOne UDPReader.readPackets
  rw [UDPReader.readLoop, hf]
  dsimp only
  rw [if_neg (by decide)]
  rcases hstatus with rfl | rfl
  · rw [nextEx_eof lib hnext]
    exact ⟨le_refl _, rfl⟩
  · rw [nextEx_error lib hnext]
    exact ⟨(by decide : (-1 : Int) ≤ 0), rfl⟩

/-- A packet that was not captured whole stops the reader, too. -/
theorem readOne_snapped {r : UDPReader σ} {f f' : FileReader σ} {hdr : Pkthdr}
    (hf : r.file = some f) (hnext : f.nextPacket read = (0, some hdr, f'))
    (hlen : hdr.len ≠ hdr.caplen) :
    (r.readOne read lib).1 ≤ 0 ∧ (r.readOne read lib).2.calls = r.calls := by
  unfold UDPReader.readOne UDPReader.readPackets
  rw [UDPReader.readLoop, hf]
  dsimp only
  rw [if_neg (by decide), nextEx_packet lib hnext]
  dsimp only
  rw [if_neg (by decide), if_pos hlen]
  exact ⟨(by decide : (-1 : Int) ≤ 0), rfl⟩

/-- And one that was is looked at. -/
theorem readOne_packet {r : UDPReader σ} {f f' : FileReader σ} {hdr : Pkthdr}
    (hf : r.file = some f) (hnext : f.nextPacket read = (0, some hdr, f'))
    (hlen : hdr.len = hdr.caplen) (hpos : hdr.caplen ≠ 0) :
    ∃ r' : UDPReader σ, r'.calls = r.calls ∧ r'.file = some f' ∧
      r'.pktLen = hdr.caplen ∧
      r.readOne read lib = (1, r'.handleEthPayload (nextProto f'.buffer)
        f'.buffer (headerSize f'.buffer)
        ((hdr.caplen + 4294967296 - headerSize f'.buffer) % 4294967296)
        (.make hdr.sec hdr.usec)) := by
  refine ⟨{ r with
    file := some f', bytesRead := r.bytesRead + .ofNat (24 + hdr.caplen)
    pktLen := hdr.len, ts := .make hdr.sec hdr.usec }, rfl, rfl, hlen, ?_⟩
  unfold UDPReader.readOne UDPReader.readPackets
  rw [UDPReader.readLoop, hf]
  dsimp only
  rw [if_neg (by decide), nextEx_packet lib hnext]
  dsimp only
  rw [if_neg (by decide), if_neg (not_not_intro hlen),
    if_neg (by rw [hlen]; exact hpos)]
  -- the second pass finds that there was one
  have hstop : ∀ x : UDPReader σ, UDPReader.readLoop read lib 1 1 (0 + 1) x
      = some (1, x) := by
    intro x
    rw [UDPReader.readLoop]
    cases x.file with
    | none => rfl
    | some file => rfl
  rw [hstop]
  rfl

/-- A packet that is handled does not move the reader. -/
theorem file_handleEthPayload (r : UDPReader σ) (proto : Nat)
    (buffer : Bytes) (buf len : Nat) (ts : Timestamp) :
    (r.handleEthPayload proto buffer buf len ts).file = r.file ∧
      (r.handleEthPayload proto buffer buf len ts).pktLen = r.pktLen := by
  unfold UDPReader.handleEthPayload
  split
  · exact ⟨rfl, rfl⟩
  · dsimp only
    split
    · exact ⟨rfl, rfl⟩
    · exact ⟨rfl, rfl⟩

/-- What the reader stops at: the end of a file that was cut off, or a record
that is not taken, with anything after it. -/
def Stops (tail : Bytes) : Prop :=
  CutOff tail ∨
    ∃ p rest, tail = SavedPacket.bytes p ++ rest ∧ p.Saved ∧ ¬ p.Taken

/-- At an end the reader yields nothing more. -/
theorem yields_stops (hserves : Serves read holds) {tail : Bytes}
    (htail : Stops tail) {r : UDPReader σ} {f : FileReader σ}
    (hf : r.file = some f) (h : holds f.source tail) :
    Yields read lib r [] := by
  rcases htail with hcut | ⟨p, rest, rfl, hp, hnot⟩
  · obtain ⟨status, f', hnext, hstatus⟩ := nextPacket_cutOff hserves h hcut
    exact readOne_stop lib hf hnext hstatus
  · by_cases hlong : p.data.length ≤ Core.Pcap.maximumSnaplen
    · obtain ⟨source, -, hread⟩ := nextPacket_saved hserves hp h hlong
      by_cases hdata : p.data = []
      · rw [if_pos hdata] at hread
        exact readOne_stop lib hf hread (.inl rfl)
      · rw [if_neg hdata] at hread
        exact readOne_snapped lib hf hread
          fun hlen => hnot ⟨hdata, hlong, hlen⟩
    · obtain ⟨f', hread⟩ :=
        nextPacket_long hserves hp h (Nat.lt_of_not_le hlong)
      exact readOne_stop lib hf hread (.inr rfl)

/-- Records that are taken are read one by one. -/
theorem yields_records (hserves : Serves read holds) (ps : List SavedPacket)
    {tail : Bytes} (htail : Stops tail) (hsaved : ∀ p ∈ ps, p.Saved)
    (htaken : ∀ p ∈ ps, p.Taken) (hframed : ∀ p ∈ ps, Framed p.data)
    {r : UDPReader σ} {f : FileReader σ} (hf : r.file = some f)
    (h : holds f.source (ps.flatMap SavedPacket.bytes ++ tail)) :
    Yields read lib r (ps.map fun p => p.packet f.filetype) := by
  induction ps generalizing r f with
  | nil => exact yields_stops lib hserves htail hf h
  | cons p ps ih =>
      have hp := hsaved p List.mem_cons_self
      obtain ⟨hdata, hlong, hlen⟩ := htaken p List.mem_cons_self
      rw [List.flatMap_cons, List.append_assoc] at h
      obtain ⟨source, hnext, hread⟩ := nextPacket_saved hserves hp h hlong
      rw [if_neg hdata] at hread
      have hcaplen : (p.header f.filetype).caplen = p.data.length := hp.caplen
      have hpos : (p.header f.filetype).caplen ≠ 0 := by
        rw [hcaplen]
        exact mt List.length_eq_zero_iff.mp hdata
      obtain ⟨r', hcalls, hfile, hpktLen, hone⟩ :=
        readOne_packet lib hf hread hlen hpos
      rw [hcaplen] at hone hpktLen
      obtain ⟨cs, happend, hpkts, hends⟩ := handleEthPayload_append r'
        (hframed p List.mem_cons_self) hlong (f.buffer.drop p.data.length)
        (p.ts f.filetype)
      have hafter := file_handleEthPayload r'
        (nextProto (p.data ++ f.buffer.drop p.data.length))
        (p.data ++ f.buffer.drop p.data.length)
        (headerSize (p.data ++ f.buffer.drop p.data.length))
        ((p.data.length + 4294967296
          - headerSize (p.data ++ f.buffer.drop p.data.length)) % 4294967296)
        (p.ts f.filetype)
      rw [hcalls] at happend
      refine ⟨by rw [hone], ⟨cs, by rw [hone]; exact happend, hpkts, ?_⟩, ?_⟩
      · rw [hone]
        intro c hc
        exact (hends c hc).trans (hafter.2.trans hpktLen).symm
      · refine ih (fun p' hp' => hsaved p' (List.mem_cons_of_mem p hp'))
          (fun p' hp' => htaken p' (List.mem_cons_of_mem p hp'))
          (fun p' hp' => hframed p' (List.mem_cons_of_mem p hp'))
          (f := { f with source, buffer :=
            p.data ++ f.buffer.drop p.data.length }) ?_ hnext
        rw [hone]
        exact hafter.1.trans hfile

end Yields

end TradingEngine.Net
