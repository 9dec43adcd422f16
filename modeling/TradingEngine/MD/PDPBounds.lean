/-
`md/i01_md/NYSE/PDP/Decoder.hpp`, once more: the bytes that the messages of
a packet take the decoder to.

`PDPDecoder` says what the listener is told, one message after another.
Here the packet is what all of them touch, in so many turns of each loop,
whether it comes to an end or not.

# Conversion in place

`msg_size` is read as it was received. A message that ends converts only
bytes of its own (`own_of_mem_messageTouches`), so none of them is the size
of a later one; and after one that does not end there is no later one.
-/
import TradingEngine.MD.PDPDecoder

namespace TradingEngine.MD.PDP

open Lib (Touches)

/-- The loop over the messages of a packet. -/
def messagesTouches (pricePointTurns : Nat) (type : Option MsgType)
    (buf : Bytes) (len : Nat) : Nat → Nat → Touches
  | 0, _ => Touches.cut
  | turns + 1, idx =>
      if idx < len then
        let t := messageTouches pricePointTurns type buf idx
        if messageSize type buf idx = 0 then t
        else t.andThen (messagesTouches pricePointTurns type buf len turns
          (idx + messageSize type buf idx))
      else ⟨[], true⟩

/-- What the messages of a packet touch, in so many turns of each loop. -/
def Decoder.onRecvTouches (d : Decoder) (p : Packet) (turns : Nat) :
    Touches :=
  if msgSize p.buf + 2 > p.len then ⟨[], true⟩
  else if msgSeqNum p.buf < d.channel.expectSeqnum then ⟨[], true⟩
  else messagesTouches turns (msgType p.buf) p.buf p.len turns
    messageHeaderSize

end TradingEngine.MD.PDP
