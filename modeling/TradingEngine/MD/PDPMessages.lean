/-
`md/i01_md/NYSE/PDP/Messages.hpp`, and what
`md/i01_md/NYSE/PDP/Decoder.hpp` does to a message in memory.

A message is what `handle_message_` touches of it: the type in the packet's
header, the fields that are converted to host byte order in place, one by
one, and the price points behind them (`messageTouches`). The offsets are
those of the packed structures. A message that is only passed on by its
pointer touches none of its bytes, and without `I01_DEBUG_MESSAGING`
nothing is printed.

# Price points

A full or delta update says its own size, and the loop over its price
points runs to the number that is left of it. The subtraction is of a
`std::size_t`: a size below that of the layout wraps around, the number of
price points is more than the counter of 32 bits can reach, and the loop
does not end (`npp`).
-/
import TradingEngine.Lib.Touches

namespace TradingEngine.MD.PDP

open Lib (be16 be32 Extent Touches)

abbrev Bytes := List UInt8

-- ================================================================== headers

/-- `Types::MsgType`. -/
inductive MsgType
  | sequenceNumberReset
  | heartbeat
  | messageUnavailable
  | retransmissionResponse
  | retransmissionRequest
  | refreshRequest
  | heartbeatResponse
  | openbookFullUpdate
  | openbookDeltaUpdate
  | nyseOpeningImbalance
  | nyseClosingImbalance
  deriving DecidableEq, Repr

/-- The enumerator of a `uint16_t`, if it has one. -/
def MsgType.ofU16 : Nat → Option MsgType
  | 1 => some .sequenceNumberReset
  | 2 => some .heartbeat
  | 5 => some .messageUnavailable
  | 10 => some .retransmissionResponse
  | 20 => some .retransmissionRequest
  | 22 => some .refreshRequest
  | 24 => some .heartbeatResponse
  | 230 => some .openbookFullUpdate
  | 231 => some .openbookDeltaUpdate
  | 240 => some .nyseOpeningImbalance
  | 241 => some .nyseClosingImbalance
  | _ => none

/-- `sizeof(MessageHeader)`. -/
def messageHeaderSize : Nat := 16

/-- `header->msg_size`. -/
def msgSize (buf : Bytes) : Nat := be16 buf 0

/-- `header->msg_type`. -/
def msgType (buf : Bytes) : Option MsgType := MsgType.ofU16 (be16 buf 2)

/-- `header->msg_seq_num`. -/
def msgSeqNum (buf : Bytes) : UInt32 := UInt32.ofNat (be32 buf 4)

-- ================================================================== layouts

/-- `sizeof(FullUpdate)`. -/
def fullUpdateSize : Nat := 32

/-- `sizeof(FullUpdatePricePoint)`. -/
def fullUpdatePricePointSize : Nat := 12

/-- `sizeof(DeltaUpdate)`. -/
def deltaUpdateSize : Nat := 18

/-- `sizeof(DeltaUpdatePricePoint)`. -/
def deltaUpdatePricePointSize : Nat := 28

/-- `header->msg_type`, in the packet. -/
def msgTypeField : Extent := ⟨2, 2⟩

/-- The fields of a message that are converted, in the order of the code. -/
def MsgType.converted : MsgType → List Extent
  | .nyseOpeningImbalance =>
      -- reference, imbalance, paired, clearing, source time, ssr filing
      [⟨14, 4⟩, ⟨18, 4⟩, ⟨22, 4⟩, ⟨26, 4⟩, ⟨30, 4⟩, ⟨34, 4⟩]
  | .nyseClosingImbalance =>
      -- the source time stands behind the closing only price
      [⟨14, 4⟩, ⟨18, 4⟩, ⟨22, 4⟩, ⟨26, 4⟩, ⟨34, 4⟩, ⟨30, 4⟩]
  | .openbookFullUpdate =>
      -- size, security, source time, its microseconds, sequence number, mpv
      [⟨0, 2⟩, ⟨2, 2⟩, ⟨4, 4⟩, ⟨8, 2⟩, ⟨10, 4⟩, ⟨30, 2⟩]
  | .openbookDeltaUpdate => [⟨0, 2⟩, ⟨2, 2⟩, ⟨4, 4⟩, ⟨8, 2⟩, ⟨10, 4⟩]
  | .sequenceNumberReset => [⟨0, 4⟩]
  | .messageUnavailable => [⟨0, 4⟩, ⟨4, 4⟩]
  | .retransmissionResponse => [⟨0, 4⟩]
  | .retransmissionRequest => [⟨0, 4⟩, ⟨4, 4⟩]
  | .refreshRequest => []
  | .heartbeatResponse => []
  | .heartbeat => []

/-- Price, volume and number of orders. -/
def fullUpdatePricePointConverted : List Extent :=
  [⟨0, 4⟩, ⟨4, 4⟩, ⟨8, 2⟩]

/-- Price, volume, changed quantity and number of orders. -/
def deltaUpdatePricePointConverted : List Extent :=
  [⟨0, 4⟩, ⟨4, 4⟩, ⟨8, 4⟩, ⟨12, 2⟩]

/-- `npp`. The size is subtracted from as a `std::size_t`. -/
def npp (msgSize sizeof pricePointSize : Nat) : Nat :=
  (msgSize + 18446744073709551616 - sizeof) % 18446744073709551616
    / pricePointSize

-- ================================================================= messages

/-- What `handle_message_` returns. -/
def messageSize (type : Option MsgType) (buf : Bytes) (idx : Nat) : Nat :=
  match type with
  | some .nyseOpeningImbalance => 38
  | some .nyseClosingImbalance => 38
  | some .openbookFullUpdate => be16 buf idx
  | some .openbookDeltaUpdate => be16 buf idx
  | some .heartbeat => 0
  | some .sequenceNumberReset => 4
  | some .messageUnavailable => 8
  | some .retransmissionResponse => 28
  | some .retransmissionRequest => 28
  | some .refreshRequest => 36
  | some .heartbeatResponse => 20
  | none => 0

/-- What `handle_message_` touches before its loop. -/
def fixedTouches (type : Option MsgType) (idx : Nat) : Touches :=
  match type with
  | some type => ⟨msgTypeField :: type.converted.map (Extent.shift idx), true⟩
  | none => ⟨[msgTypeField], true⟩

/-- What `handle_message_` touches. -/
def messageTouches (turns : Nat) (type : Option MsgType) (buf : Bytes)
    (idx : Nat) : Touches :=
  match type with
  | some .openbookFullUpdate =>
      (fixedTouches type idx).andThen
        (Touches.forEach fullUpdatePricePointConverted
          fullUpdatePricePointSize
          (npp (be16 buf idx) fullUpdateSize fullUpdatePricePointSize)
          turns 0 (idx + fullUpdateSize))
  | some .openbookDeltaUpdate =>
      (fixedTouches type idx).andThen
        (Touches.forEach deltaUpdatePricePointConverted
          deltaUpdatePricePointSize
          (npp (be16 buf idx) deltaUpdateSize deltaUpdatePricePointSize)
          turns 0 (idx + deltaUpdateSize))
  | type => fixedTouches type idx

end TradingEngine.MD.PDP
