/-
`core/Pcap.cpp`: the packets of a capture file that is compressed.

What is compressed is read through `LZ4::FileReader::read`, which is a
parameter here (`Source`), with the state that it reads from. Files that are
not compressed are read by libpcap alone.

`m_pcap_p->buffer` keeps what was read into it before, past the end of a
shorter packet. Microseconds are multiplied in 32 bits; there is no overflow
for less than two seconds of them, and none is modelled.
-/
import TradingEngine.Lib.Codec
import TradingEngine.OE.Types

namespace TradingEngine.Core.Pcap

open Lib (Codec)
open OE (Bytes)

-- ================================================================== reading

/-- What a `read` returns, and what it has put into the buffer then. -/
structure ReadResult (σ : Type) where
  ret : Int
  bytes : Bytes
  source : σ

/-- `m_lz4reader->read(buffer, n)`. -/
abbrev Source (σ : Type) := σ → Nat → ReadResult σ

/-- A source that gives the content, as much of it as is asked for and as there
is. -/
structure Serves {σ : Type} (read : Source σ) (holds : σ → Bytes → Prop) :
    Prop where
  ret : ∀ s content n, holds s content →
    (read s n).ret = (min n content.length : Nat)
  bytes : ∀ s content n, holds s content →
    (read s n).bytes = content.take n
  next : ∀ s content n, holds s content →
    holds (read s n).source (content.drop n)

-- ================================================================== headers

/-- `TCPDUMP_MAGIC`. -/
def tcpdumpMagic : Nat := 0xA1B2C3D4

/-- `NSEC_TCPDUMP_MAGIC`. -/
def nsecTcpdumpMagic : Nat := 0xA1B23C4D

/-- `PCAP_VERSION_MAJOR`. -/
def pcapVersionMajor : Nat := 2

/-- `MAXIMUM_SNAPLEN`. -/
def maximumSnaplen : Nat := 262144

/-- `pcap_file_header`. -/
structure FileHeader where
  magic : Nat
  versionMajor : Nat
  versionMinor : Nat
  thiszone : Int
  sigfigs : Nat
  snaplen : Nat
  linktype : Nat
  deriving DecidableEq

def FileHeader.codec : Codec FileHeader :=
  ((Codec.nat 4).prod ((Codec.nat 2).prod ((Codec.nat 2).prod
    ((Codec.int 4).prod ((Codec.nat 4).prod ((Codec.nat 4).prod
      (.nat 4))))))).via
    (fun h => (h.magic, h.versionMajor, h.versionMinor, h.thiszone,
      h.sigfigs, h.snaplen, h.linktype))
    fun p => ⟨p.1, p.2.1, p.2.2.1, p.2.2.2.1, p.2.2.2.2.1, p.2.2.2.2.2.1,
      p.2.2.2.2.2.2⟩

/-- `pcap_sf_pkthdr`, as it is in a file, and `pcap_pkthdr`, whose `usec`
counts nanoseconds. -/
structure Pkthdr where
  sec : Int
  usec : Int
  caplen : Nat
  len : Nat
  deriving DecidableEq

def Pkthdr.codec : Codec Pkthdr :=
  ((Codec.int 4).prod ((Codec.int 4).prod ((Codec.nat 4).prod
    (.nat 4)))).via
    (fun h => (h.sec, h.usec, h.caplen, h.len))
    fun p => ⟨p.1, p.2.1, p.2.2.1, p.2.2.2⟩

-- =================================================================== a file

/-- `m_filetype`, of the files that are read here. -/
inductive FileType
  | pcapLz4
  | pcapnsLz4
  deriving DecidableEq

/-- `FileReaderImpl`. -/
structure FileReader (σ : Type) where
  /-- `m_lz4reader`. -/
  source : σ
  filetype : FileType
  /-- `m_pcap_p->buffer`. -/
  buffer : Bytes

/-- What the constructor throws. -/
inductive OpenError
  | noMagicNumber
  | badMagicNumber
  | versionTooOld
  deriving DecidableEq

section Reading

variable {σ : Type} (read : Source σ)

/-- `FileReaderImpl::FileReaderImpl`, with what is in the buffer when it is
allocated. -/
def openFile (source : σ) (buffer : Bytes) :
    Except OpenError (FileReader σ) :=
  let r := read source FileHeader.codec.size
  if r.ret = FileHeader.codec.size then
    let h := FileHeader.codec.decode r.bytes
    if h.magic = nsecTcpdumpMagic then
      if h.versionMajor < pcapVersionMajor then .error .versionTooOld
      else .ok ⟨r.source, .pcapnsLz4, buffer⟩
    else if h.magic = tcpdumpMagic then
      if h.versionMajor < pcapVersionMajor then .error .versionTooOld
      else .ok ⟨r.source, .pcapLz4, buffer⟩
    else .error .badMagicNumber
  else .error .noMagicNumber

/-- What was read, over what was in the buffer. -/
def overwrite (buffer bytes : Bytes) : Bytes :=
  bytes ++ buffer.drop bytes.length

/-- The nanoseconds of a time in a file. -/
def nanoseconds (usec : Int) : FileType → Int
  | .pcapLz4 => usec * 1000
  | .pcapnsLz4 => usec

/-- `next_packet_`: 0, with the header of a packet, 1 for the end of the file,
or -1. -/
def FileReader.nextPacket (f : FileReader σ) :
    Int × Option Pkthdr × FileReader σ :=
  let r := read f.source Pkthdr.codec.size
  let f := { f with source := r.source }
  if r.ret = Pkthdr.codec.size then
    let sfHdr := Pkthdr.codec.decode r.bytes
    let hdr := { sfHdr with usec := nanoseconds sfHdr.usec f.filetype }
    if hdr.caplen > maximumSnaplen then (-1, none, f)
    else
      let r := read f.source hdr.caplen
      let f := { f with
        source := r.source, buffer := overwrite f.buffer r.bytes }
      if r.ret > 0 ∧ r.ret = hdr.caplen then (0, some hdr, f)
      else if r.ret > 0 then (-1, none, f)
      else if r.ret = hdr.caplen then (1, none, f)
      else (-1, none, f)
  else if r.ret = 0 then (1, none, f)
  else (-1, none, f)

end Reading

/-- What `pcap_next_ex` does with the result of `next_packet_op` where there
is no file of its own: by way of `pcap_offline_read`, a packet is 1, an error
is itself, and the end of the file is 0. -/
structure Libpcap where
  offlineRead : Int → Int
  packet : offlineRead 0 = 1
  eof : offlineRead 1 = 0
  error : offlineRead (-1) = -1

/-- `next_ex`: by `pcapnslz4_read` the end of the file is -2. -/
def FileReader.nextEx {σ : Type} (read : Source σ) (lib : Libpcap)
    (f : FileReader σ) : Int × Option Pkthdr × FileReader σ :=
  let r := f.nextPacket read
  let status := lib.offlineRead r.1
  (if status = 0 then -2 else status, r.2)

end TradingEngine.Core.Pcap
