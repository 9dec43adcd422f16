/-
`core/LZ4.cpp`: reading an LZ4 file piece by piece.

`LZ4F_decompress` is not here: it is the decoder that a reader is given,
with the state it starts in. Its results are numbers of bytes, or an error
that `LZ4F_isError` tells; the next size it would like is the hint of a
turn. The file is mapped.

`calls` is a record of the calls of the decoder, and nothing of the source.
-/
import TradingEngine.Lib.Bytes
import TradingEngine.Lib.Streaming

namespace TradingEngine.Core.LZ4

open Lib.Streaming (Decoder)

/-- A call of the decoder: from where it was fed, how much, how much of
that it took, and what it gave. -/
structure DecoderCall where
  start : Nat
  fed : Nat
  consumed : Nat
  given : List UInt8
  deriving DecidableEq

/-- `FileReaderImpl`. -/
structure FileReader (σ : Type) where
  /-- `m_ctx`. -/
  dctx : σ
  compressedOffset : Nat
  decompressedBytes : Nat
  /-- `m_next_frame_size`; `none` is an error. -/
  nextFrameSize : Option Nat
  calls : List DecoderCall

/-- What the constructor throws. -/
inductive OpenError
  | couldNotMap
  | badMagicNumber (magic : Nat)
  deriving DecidableEq

/-- What `read` returns, and what it has put into the buffer then. -/
structure ReadResult (σ : Type) where
  ret : Int
  bytes : List UInt8
  reader : FileReader σ

namespace FileReader

variable {σ : Type}

/-- `FileReaderImpl::FileReaderImpl`. -/
def openFile (init : σ) (file : List UInt8) :
    Except OpenError (FileReader σ) :=
  if file.length = 0 then .error .couldNotMap
  else if Lib.le32 file 0 ≠ 0x184D2204 then
    .error (.badMagicNumber (Lib.le32 file 0))
  else
    .ok
      { dctx := init
        compressedOffset := 0
        decompressedBytes := 0
        nextFrameSize := some 0
        calls := [] }

/-- `sn`: the rest of the file, or the next frame's size where that is
less. -/
def feedSize (r : FileReader σ) (file : List UInt8) : Nat :=
  match r.nextFrameSize with
  | some hint =>
      if hint > 0 ∧ hint < file.length - r.compressedOffset then hint
      else file.length - r.compressedOffset
  | none => file.length - r.compressedOffset

variable (decode : Decoder σ UInt8 UInt8) (file : List UInt8)

/-- The loop of `read`, with `out` in the buffer. -/
def readLoop (maxlen : Nat) : Nat → List UInt8 → FileReader σ → ReadResult σ
  | 0, out, r => ⟨out.length, out, r⟩
  | turns + 1, out, r =>
      if out.length < maxlen then
        let sn := r.feedSize file
        let t := decode r.dctx (maxlen - out.length)
          (Lib.bytesAt file r.compressedOffset sn)
        let out := out ++ t.given
        let r :=
          { r with
            dctx := t.state
            nextFrameSize := t.hint
            calls :=
              r.calls ++ [⟨r.compressedOffset, sn, t.consumed, t.given⟩] }
        if t.hint = none then
          if out.length > 0 then ⟨out.length, out, r⟩ else ⟨-1, [], r⟩
        else if t.given.length = 0 ∨ t.consumed = 0 then
          ⟨out.length, out, r⟩
        else
          readLoop maxlen turns out
            { r with
              compressedOffset := r.compressedOffset + t.consumed
              decompressedBytes := r.decompressedBytes + t.given.length }
      else ⟨out.length, out, r⟩

/-- `read`. Every turn but the last puts a byte into the buffer. -/
def read (r : FileReader σ) (maxlen : Nat) : ReadResult σ :=
  if r.compressedOffset ≥ file.length then ⟨0, [], r⟩
  else if r.nextFrameSize = none then ⟨-1, [], r⟩
  else readLoop decode file maxlen maxlen [] r

/-- Reads one after another: what they return, and the reader then. -/
def readAll (r : FileReader σ) : List Nat → List UInt8 × FileReader σ
  | [] => ([], r)
  | maxlen :: rest =>
      let x := r.read decode file maxlen
      let y := readAll x.reader rest
      (x.bytes ++ y.1, y.2)

end FileReader

end TradingEngine.Core.LZ4
