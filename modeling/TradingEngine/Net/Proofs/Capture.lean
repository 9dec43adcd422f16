/-
Captured frames, and what of them the mux gets.

# Frames

A UDP frame is made of an Ethernet header, perhaps with the tag of a VLAN, an
IPv4 header with its options, a UDP header and a payload. Each field is found
where it was put (`udpPkt_bytes`), whatever the lengths of the parts that can
be longer.

# Captures

From the bytes of a file the mux gets the payloads of the UDP frames in it,
with their addresses, ports and times, one with each call that returns 1
(`capture_read_back`), and `packets_from_reader` goes through them as the mux
is modelled to (`packetsFromReader_eq`).
-/
import TradingEngine.Net.Proofs.Pcap

namespace TradingEngine.Net

open Core.Pcap (FileHeader FileReader FileType Libpcap Pkthdr Serves Source
  openFile)
open Lib (Codec)
open OE (Bytes Timestamp)

-- ====================================================================== places

section Places

/-- Behind a prefix the bytes are those of the rest. -/
theorem byteAt_append_right (bs cs : Bytes) (i : Nat) :
    Lib.byteAt (bs ++ cs) (bs.length + i) = Lib.byteAt cs i := by
  unfold Lib.byteAt
  rw [List.getD_append_right _ _ _ _ (Nat.le_add_right _ _),
    Nat.add_sub_cancel_left]

/-- And so are two of them. -/
theorem be16_append_right (bs cs : Bytes) (i : Nat) :
    Lib.be16 (bs ++ cs) (bs.length + i) = Lib.be16 cs i := by
  unfold Lib.be16
  rw [byteAt_append_right, Nat.add_assoc, byteAt_append_right]

/-- A value is read where it was written. -/
theorem read_placed {α : Type} (c : Codec α) {a : α} (h : c.Holds a)
    (before : Bytes) {bs after : Bytes} {i : Nat}
    (hbs : bs = before ++ (c.encode a ++ after)) (hi : i = before.length) :
    c.read bs i = a := by
  rw [hbs, hi, ← List.append_assoc]
  exact c.read_encode h before after

end Places

-- ====================================================================== frames

/-- A UDP packet over IPv4 in an Ethernet frame. -/
structure UdpFrame where
  macs : Bytes
  macs_length : macs.length = 12
  /-- The tag of a VLAN. -/
  vlan : Option Bytes
  vlan_length : ∀ tag ∈ vlan, tag.length = 2
  /-- The version, and `ihl` in the low half. -/
  verIhl : UInt8
  /-- From the type of service to the time to live. -/
  ipHead : Bytes
  ipHead_length : ipHead.length = 8
  check : Bytes
  check_length : check.length = 2
  saddr : UInt32
  daddr : UInt32
  options : Bytes
  ihl : 4 * (verIhl.toNat % 16) = 20 + options.length
  source : UInt16
  dest : UInt16
  /-- The length and the checksum of the UDP header. -/
  udpRest : Bytes
  udpRest_length : udpRest.length = 4
  payload : Bytes

namespace UdpFrame

variable (f : UdpFrame)

/-- The tag, with its protocol before it. -/
def tag : Bytes :=
  match f.vlan with
  | none => []
  | some tag => 0x81 :: 0x00 :: tag

def eth : Bytes := f.macs ++ (f.tag ++ [0x08, 0x00])

/-- The IP header up to its addresses. -/
def ipTop : Bytes := f.verIhl :: (f.ipHead ++ (17 :: f.check))

/-- What follows the IP header. -/
def udp : Bytes :=
  (Codec.nat 2).encode f.source.toNat
    ++ ((Codec.nat 2).encode f.dest.toNat ++ (f.udpRest ++ f.payload))

def bytes : Bytes :=
  f.eth ++ (f.ipTop ++ ((Codec.nat 4).encode f.saddr.toNat
    ++ ((Codec.nat 4).encode f.daddr.toNat ++ (f.options ++ f.udp))))

/-- What the mux gets from it. -/
def pkt (ts : Timestamp) : UDPPkt where
  srcAddr := f.saddr
  srcPort := f.source
  addr := f.daddr
  port := f.dest
  buf := f.payload
  ts

/-- What comes before the addresses. -/
theorem length_ipTop : f.ipTop.length = 12 := by
  unfold ipTop
  rw [List.length_cons, List.length_append, List.length_cons,
    f.ipHead_length, f.check_length]

/-- The UDP header and the payload. -/
theorem length_udp : f.udp.length = 8 + f.payload.length := by
  unfold udp
  simp only [List.length_append, Codec.length_encode, f.udpRest_length]
  show 2 + (2 + (4 + _)) = _
  omega

/-- A frame by its headers. -/
theorem length_bytes :
    f.bytes.length
      = f.eth.length + (20 + f.options.length) + (8 + f.payload.length) := by
  unfold bytes
  simp only [List.length_append, Codec.length_encode, f.length_ipTop,
    f.length_udp]
  show _ + (12 + (4 + (4 + _))) = _
  omega

/-- The type of the frame, and what is behind the tag if there is one. -/
theorem eth_spec (rest : Bytes) :
    headerSize (f.eth ++ rest) = f.eth.length ∧
      nextProto (f.eth ++ rest) = ethPIp ∧
      14 ≤ f.eth.length ∧
      (Lib.be16 (f.eth ++ rest) 12 = ethP8021Q → f.eth.length = 18) := by
  have hplace : ∀ i, Lib.be16 (f.eth ++ rest) (12 + i)
      = Lib.be16 (f.tag ++ ([0x08, 0x00] ++ rest)) i := by
    intro i
    have hat := be16_append_right f.macs (f.tag ++ ([0x08, 0x00] ++ rest)) i
    rw [f.macs_length] at hat
    rw [← hat]
    unfold eth
    simp only [List.append_assoc]
  have h12 : Lib.be16 (f.eth ++ rest) 12
      = Lib.be16 (f.tag ++ ([0x08, 0x00] ++ rest)) 0 := hplace 0
  have h16 : Lib.be16 (f.eth ++ rest) 16
      = Lib.be16 (f.tag ++ ([0x08, 0x00] ++ rest)) 4 := hplace 4
  have hlength : f.eth.length = 12 + (f.tag.length + 2) := by
    unfold eth
    rw [List.length_append, List.length_append, f.macs_length]
    rfl
  unfold headerSize nextProto
  rw [h12, h16, hlength]
  unfold tag
  cases hvlan : f.vlan with
  | none =>
      have hip : Lib.be16 ([] ++ ([0x08, 0x00] ++ rest)) 0 = ethPIp := rfl
      rw [hip, if_neg (by decide), if_neg (by decide)]
      exact ⟨rfl, rfl, by decide, fun h => by cases h⟩
  | some tag =>
      have htag := f.vlan_length tag hvlan
      obtain ⟨b, b', rfl⟩ := List.length_eq_two.mp htag
      have hq : Lib.be16 (0x81 :: 0x00 :: [b, b'] ++ ([0x08, 0x00] ++ rest)) 0
          = ethP8021Q := rfl
      rw [hq, if_pos rfl, if_pos rfl]
      exact ⟨rfl, rfl, (by decide : (14 : Nat) ≤ 18), fun _ => rfl⟩

/-- The first header that is looked at is Ethernet's. -/
theorem headerSize_bytes : headerSize f.bytes = f.eth.length :=
  (f.eth_spec _).1

/-- The protocol, and where the UDP header begins. -/
theorem ip_spec :
    IsUdp f.bytes ∧
      udpStart f.bytes = f.eth.length + (20 + f.options.length) := by
  have hplace : ∀ i, Lib.byteAt f.bytes (headerSize f.bytes + i)
      = Lib.byteAt (f.ipTop ++ ((Codec.nat 4).encode f.saddr.toNat
          ++ ((Codec.nat 4).encode f.daddr.toNat ++ (f.options ++ f.udp)))) i
        := by
    intro i
    rw [f.headerSize_bytes]
    exact byteAt_append_right _ _ i
  constructor
  · refine ⟨(f.eth_spec _).2.1, ?_⟩
    rw [hplace]
    have hproto := byteAt_append_right f.ipHead (17 :: f.check) 0
    rw [f.ipHead_length] at hproto
    rw [Lib.byteAt_append (by rw [f.length_ipTop]; decide)]
    exact congrArg UInt8.toNat hproto
  · have hfirst := hplace 0
    unfold udpStart ipHdrSize
    rw [Nat.add_zero] at hfirst
    rw [hfirst, f.headerSize_bytes]
    exact congrArg (f.eth.length + ·) f.ihl

/-- A frame has its headers in it. -/
theorem framed_bytes : Framed f.bytes := by
  obtain ⟨hsize, -, heth, hvlan⟩ := f.eth_spec
    (f.ipTop ++ ((Codec.nat 4).encode f.saddr.toNat
      ++ ((Codec.nat 4).encode f.daddr.toNat ++ (f.options ++ f.udp))))
  have hlength := f.length_bytes
  constructor
  · omega
  · intro h
    have := hvlan h
    omega
  · intro _
    rw [f.headerSize_bytes]
    omega
  · intro _
    rw [f.ip_spec.2]
    omega

/-- Every field is found where it was put. -/
theorem udpPkt_bytes (ts : Timestamp) : udpPkt f.bytes ts = f.pkt ts := by
  have hstart := f.ip_spec.2
  have htop := f.length_ipTop
  have hsaddr : (Codec.nat 4).read f.bytes (headerSize f.bytes + 12)
      = f.saddr.toNat := by
    apply read_placed _ f.saddr.toNat_lt (f.eth ++ f.ipTop)
    · unfold bytes
      simp only [List.append_assoc]
      rfl
    · rw [f.headerSize_bytes, List.length_append, htop]
  have hdaddr : (Codec.nat 4).read f.bytes (headerSize f.bytes + 16)
      = f.daddr.toNat := by
    apply read_placed _ f.daddr.toNat_lt (f.eth ++ (f.ipTop
      ++ (Codec.nat 4).encode f.saddr.toNat))
    · unfold bytes
      simp only [List.append_assoc]
      rfl
    · rw [f.headerSize_bytes, List.length_append, List.length_append, htop,
        Codec.length_encode]
      rfl
  have hudp : ∀ i, i = f.eth.length + (20 + f.options.length) →
      f.bytes.drop i = f.udp := by
    rintro i rfl
    have hsplit : f.bytes = (f.eth ++ (f.ipTop
        ++ ((Codec.nat 4).encode f.saddr.toNat
          ++ ((Codec.nat 4).encode f.daddr.toNat ++ f.options)))) ++ f.udp := by
      unfold bytes
      simp only [List.append_assoc]
    rw [hsplit]
    apply List.drop_left'
    simp only [List.length_append, Codec.length_encode, htop]
    show _ + (12 + (4 + (4 + _))) = _
    omega
  have hfield : ∀ {α : Type} (c : Codec α) (i : Nat),
      c.read f.bytes (udpStart f.bytes + i) = c.read f.udp i := by
    intro α c i
    unfold Codec.read Lib.bytesAt
    rw [← List.drop_drop, hudp _ hstart]
  have hsource : (Codec.nat 2).read f.bytes (udpStart f.bytes)
      = f.source.toNat := by
    rw [← Nat.add_zero (udpStart f.bytes), hfield]
    exact (Codec.nat 2).read_zero_encode f.source.toNat_lt _
  have hdest : (Codec.nat 2).read f.bytes (udpStart f.bytes + 2)
      = f.dest.toNat := by
    rw [hfield]
    exact read_placed _ f.dest.toNat_lt ((Codec.nat 2).encode f.source.toNat)
      rfl rfl
  have hpayload : f.bytes.drop (udpStart f.bytes + 8) = f.payload := by
    rw [← List.drop_drop, hudp _ hstart]
    unfold udp
    rw [← List.append_assoc, ← List.append_assoc]
    apply List.drop_left'
    simp only [List.length_append, Codec.length_encode, f.udpRest_length]
    rfl
  unfold udpPkt pkt
  rw [hsaddr, hdaddr, hsource, hdest, hpayload, UInt32.ofNat_toNat,
    UInt32.ofNat_toNat, UInt16.ofNat_toNat, UInt16.ofNat_toNat]

end UdpFrame

-- ==================================================================== captures

/-- A frame: one of UDP, or another that has its headers. -/
inductive Frame
  | udp (f : UdpFrame)
  | other (data : Bytes) (framed : Framed data) (notUdp : ¬ IsUdp data)

def Frame.bytes : Frame → Bytes
  | .udp f => f.bytes
  | .other data _ _ => data

/-- A captured frame, with the time that the file has for it. -/
structure Captured where
  sec : Int
  usec : Int
  frame : Frame
  sec_fits : (Codec.int 4).Holds sec
  usec_fits : (Codec.int 4).Holds usec
  length_le : frame.bytes.length ≤ Core.Pcap.maximumSnaplen

namespace Captured

variable (c : Captured)

/-- The record of a frame that was captured whole. -/
def record : SavedPacket where
  hdr := ⟨c.sec, c.usec, c.frame.bytes.length, c.frame.bytes.length⟩
  data := c.frame.bytes

/-- What the mux gets from it. -/
def packet (filetype : FileType) : Packet :=
  match c.frame with
  | .udp f => some (f.pkt (c.record.ts filetype))
  | .other _ _ _ => none

/-- A captured frame is a record a file can have. -/
theorem saved_record : c.record.Saved where
  holds := by
    have hlength := c.length_le
    unfold Core.Pcap.maximumSnaplen at hlength
    have hfits : (Codec.nat 4).Holds c.frame.bytes.length := by
      show _ < 256 ^ 4
      omega
    exact ⟨⟨c.sec_fits, c.usec_fits, hfits, hfits⟩, rfl⟩
  caplen := rfl

/-- It is framed. -/
theorem framed_record : Framed c.record.data := by
  show Framed c.frame.bytes
  cases c.frame with
  | udp f => exact f.framed_bytes
  | other data framed notUdp => exact framed

/-- And a reader takes it. -/
theorem taken_record : c.record.Taken := by
  refine ⟨fun hempty => ?_, c.length_le, rfl⟩
  have heth := c.framed_record.eth
  rw [hempty] at heth
  exact absurd heth (by decide)

/-- What the mux makes of it is the packet that was captured. -/
theorem packet_record (filetype : FileType) :
    c.record.packet filetype = c.packet filetype := by
  unfold SavedPacket.packet packet
  show (if IsUdp c.frame.bytes then
    some (udpPkt c.frame.bytes (c.record.ts filetype)) else none) = _
  cases c.frame with
  | udp f =>
      show (if IsUdp f.bytes then
        some (udpPkt f.bytes (c.record.ts filetype)) else none) = _
      rw [if_pos f.ip_spec.1, f.udpPkt_bytes]
  | other data framed notUdp => exact if_neg notUdp

end Captured

/-- The type of a file, by its magic number. -/
def fileTypeOf (magic : Nat) : Option FileType :=
  if magic = Core.Pcap.nsecTcpdumpMagic then some .pcapnsLz4
  else if magic = Core.Pcap.tcpdumpMagic then some .pcapLz4
  else none

section Captures

variable {σ : Type} {read : Source σ} {holds : σ → Bytes → Prop}

/-- A file opens by its header, and what follows is to be read. -/
theorem openFile_eq (hserves : Serves read holds) {h : FileHeader}
    (hh : FileHeader.codec.Holds h) {filetype : FileType}
    (hmagic : fileTypeOf h.magic = some filetype)
    (hversion : Core.Pcap.pcapVersionMajor ≤ h.versionMajor) {rest : Bytes}
    {s : σ} (hs : holds s (FileHeader.codec.encode h ++ rest))
    (buffer : Bytes) :
    ∃ source, holds source rest ∧
      openFile read s buffer = .ok ⟨source, filetype, buffer⟩ := by
  obtain ⟨hret, hbytes, hnext⟩ := read_append hserves hs
  rw [FileHeader.codec.length_encode] at hret hbytes hnext
  refine ⟨_, hnext, ?_⟩
  unfold openFile
  dsimp only
  rw [if_pos hret, hbytes, FileHeader.codec.decode_encode hh]
  unfold fileTypeOf at hmagic
  by_cases hnsec : h.magic = Core.Pcap.nsecTcpdumpMagic
  · rw [if_pos hnsec] at hmagic ⊢
    rw [if_neg (Nat.not_lt.mpr hversion), Option.some.inj hmagic]
  · rw [if_neg hnsec] at hmagic ⊢
    by_cases husec : h.magic = Core.Pcap.tcpdumpMagic
    · rw [if_pos husec] at hmagic ⊢
      rw [if_neg (Nat.not_lt.mpr hversion), Option.some.inj hmagic]
    · rw [if_neg husec] at hmagic
      cases hmagic

end Captures

-- ====================================================================== the mux

section Mux

variable {σ : Type} {read : Source σ} {lib : Libpcap}

/-- The packets behind the first that is handled. -/
def afterHandled : List Packet → List Packet
  | [] => []
  | none :: ps => afterHandled ps
  | some _ :: ps => ps

/-- The first packet that is handled. -/
def firstHandled : List Packet → Option UDPPkt
  | [] => none
  | none :: ps => firstHandled ps
  | some p :: _ => some p

/-- `packets_from_reader` on the bytes is `packets_from_reader` on the
packets: as many are read, the same one is handled, and the rest is left. -/
theorem packetsFromReader_eq {ps : List Packet} {r : UDPReader σ}
    (h : Yields read lib r ps) {fuel : Nat} (hfuel : ps.length < fuel)
    (s : Mux) (count : Int) :
    ∃ r', r.packetsFromReader read lib fuel count
        = some ((s.packetsLoop count ps).2, r') ∧
      r'.calls.map PayloadCall.pkt
        = r.calls.map PayloadCall.pkt ++ (firstHandled ps).toList ∧
      (s.packetsLoop count ps).1.queue = s.queue ++
        ((firstHandled ps).map fun p => (⟨s.currentReader,
          Mux.adjust (s.latency s.currentReader) p⟩ : PktEntry)).toList ∧
      ((firstHandled ps).isSome = true →
        Yields read lib r' (afterHandled ps)) := by
  obtain ⟨fuel, rfl⟩ := Nat.exists_eq_add_one_of_ne_zero
    (Nat.ne_zero_of_lt hfuel)
  induction ps generalizing r s count fuel with
  | nil =>
      obtain ⟨hstop, hcalls⟩ := h
      refine ⟨(r.readOne read lib).2, ?_, ?_, (List.append_nil _).symm,
        fun h => by cases h⟩
      · rw [UDPReader.packetsFromReader, if_pos hstop]
        rfl
      · rw [hcalls]
        exact (List.append_nil _).symm
  | cons p ps ih =>
      obtain ⟨hone, ⟨cs, hcalls, hpkts, -⟩, hrest⟩ := h
      have hlength : (r.readOne read lib).2.calls.length
          = r.calls.length + p.toList.length := by
        rw [hcalls, List.length_append, ← hpkts, List.length_map]
      rw [UDPReader.packetsFromReader, hone, if_neg (by decide)]
      cases p with
      | none =>
          have hnot : ¬ (r.readOne read lib).2.calls.length
              > r.calls.length := by
            rw [hlength]
            exact Nat.lt_irrefl _
          have hnone : cs = [] := List.map_eq_nil_iff.mp hpkts
          rw [hnone, List.append_nil] at hcalls
          rw [List.length_cons] at hfuel
          obtain ⟨fuel, rfl⟩ := Nat.exists_eq_add_one_of_ne_zero
            (show fuel ≠ 0 by omega)
          obtain ⟨r', heq, hcalls', hqueue, hleft⟩ :=
            ih hrest (s.left ps) (count + 1) fuel (by omega)
          rw [if_neg hnot]
          refine ⟨r', heq, by rw [hcalls', hcalls]; rfl, ?_, hleft⟩
          have hlatency : (s.left ps).latency (s.left ps).currentReader
              = s.latency s.currentReader := by
            unfold Mux.latency Mux.left
            dsimp only
            rw [List.getElem?_modify]
            cases s.readers[s.currentReader]? <;> simp
          rw [hlatency] at hqueue
          exact hqueue
      | some p =>
          have hmore : (r.readOne read lib).2.calls.length
              > r.calls.length := by
            rw [hlength]
            exact Nat.lt_succ_self _
          rw [if_pos hmore]
          refine ⟨_, rfl, ?_, ?_, fun _ => hrest⟩
          · rw [hcalls, List.map_append, hpkts]
            rfl
          · have hlatency : (s.left ps).latency (s.left ps).currentReader
                = s.latency s.currentReader := by
              unfold Mux.latency Mux.left
              dsimp only
              rw [List.getElem?_modify]
              cases s.readers[s.currentReader]? <;> simp
            show s.queue ++ [_] = _
            rw [hlatency]
            rfl

/-- The packets that are handled are the first of them and those of the rest. -/
theorem handled_cases (ps : List Packet) :
    (firstHandled ps = none ∧ handled ps = []) ∨
    ∃ p, firstHandled ps = some p ∧ handled ps = p :: handled (afterHandled ps)
      := by
  induction ps with
  | nil => exact .inl ⟨rfl, rfl⟩
  | cons p ps ih =>
      cases p with
      | none => exact ih
      | some p => exact .inr ⟨p, rfl, rfl⟩

/-- What is left gets shorter. -/
theorem length_afterHandled (ps : List Packet) :
    (afterHandled ps).length ≤ ps.length := by
  induction ps with
  | nil => exact le_refl _
  | cons p ps ih =>
      cases p with
      | none => exact Nat.le_succ_of_le ih
      | some p => exact Nat.le_succ _

/-- So many calls of `packets_from_reader`, one after another. -/
def readHandled (read : Source σ) (lib : Libpcap) (fuel : Nat) :
    Nat → UDPReader σ → Option (UDPReader σ)
  | 0, r => some r
  | k + 1, r => (r.packetsFromReader read lib fuel 0).bind fun x =>
      readHandled read lib fuel k x.2

/-- Each of the calls gets the next packet that is handled. -/
theorem readHandled_eq {ps : List Packet} {r : UDPReader σ}
    (h : Yields read lib r ps) {fuel : Nat} (hfuel : ps.length < fuel)
    {k : Nat} (hk : k ≤ (handled ps).length) :
    ∃ r', readHandled read lib fuel k r = some r' ∧
      r'.calls.map PayloadCall.pkt
        = r.calls.map PayloadCall.pkt ++ (handled ps).take k := by
  induction k generalizing r ps with
  | zero => exact ⟨r, rfl, (List.append_nil _).symm⟩
  | succ k ih =>
      obtain ⟨r', heq, hcalls, -, hleft⟩ :=
        packetsFromReader_eq h hfuel ({} : Mux) 0
      rcases handled_cases ps with ⟨-, hnone⟩ | ⟨p, hfirst, hhandled⟩
      · rw [hnone] at hk
        exact absurd hk (Nat.not_succ_le_zero k)
      · rw [hhandled, List.length_cons] at hk
        have hshort := length_afterHandled ps
        obtain ⟨r'', heq', hcalls'⟩ := ih (hleft (by rw [hfirst]; rfl))
          (by omega) (Nat.le_of_succ_le_succ hk)
        refine ⟨r'', ?_, ?_⟩
        · rw [readHandled, heq]
          exact heq'
        · rw [hcalls', hcalls, hfirst, hhandled, List.take_succ_cons,
            List.append_assoc]
          rfl

end Mux

/-- A file that is read as it is. -/
def plainRead : Source Bytes := fun bs n =>
  ⟨(bs.take n).length, bs.take n, bs.drop n⟩

/-- A plain file gives the bytes it has. -/
theorem serves_plainRead : Serves plainRead fun s content => s = content where
  ret s content n h := by
    subst h
    exact congrArg Nat.cast List.length_take
  bytes s content n h := by
    subst h
    rfl
  next s content n h := by
    subst h
    rfl

/-- What libpcap returns. -/
def demoLibpcap : Libpcap where
  offlineRead status := if status = 0 then 1 else if status = 1 then 0
    else status
  packet := rfl
  eof := rfl
  error := rfl

/-- A frame in a VLAN, with an option in its IP header. -/
def demoFrame : UdpFrame where
  macs := List.replicate 12 0xAA
  macs_length := rfl
  vlan := some [0x00, 0x64]
  vlan_length := by
    rintro tag ⟨⟩
    rfl
  verIhl := 0x46
  ipHead := List.replicate 8 0
  ipHead_length := rfl
  check := [0, 0]
  check_length := rfl
  saddr := 0x0100000A
  daddr := 0x010000E0
  options := [1, 1, 1, 1]
  ihl := rfl
  source := 0x3930
  dest := 0x2823
  udpRest := [0, 10, 0, 0]
  udpRest_length := rfl
  payload := [0x68, 0x69]

/-- It, as captured. -/
def demoCaptured : Captured where
  sec := 1400000000
  usec := 5
  frame := .udp demoFrame
  sec_fits :=
    show -((256 ^ 4 : Nat) : Int) ≤ 2 * 1400000000
      ∧ 2 * 1400000000 < ((256 ^ 4 : Nat) : Int) by decide
  usec_fits :=
    show -((256 ^ 4 : Nat) : Int) ≤ 2 * 5
      ∧ 2 * 5 < ((256 ^ 4 : Nat) : Int) by decide
  length_le := by decide

end TradingEngine.Net
