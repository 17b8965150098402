-- The frames of the RS-485 bus (`samd21_rs485.h`).
import MotionCore.Lib.Bytes
import MotionCore.Opcodes

open motioncore.bytes

namespace motioncore.bus

def RS485_PAYLOAD_MAX : Nat := 120

/-- Mask of the frame class in the type byte. -/
def RS485_FT_MASK : UInt8 := 0x0F
def RS485_FT_NO_MESSAGE : UInt8 := 0x00
def RS485_FT_POLL : UInt8 := 0x01
def RS485_FT_DATA : UInt8 := 0x02
def RS485_FT_ACK : UInt8 := 0x03
def RS485_FT_NAK : UInt8 := 0x04
def RS485_ADDR_MASTER : UInt8 := 0x00

/-- A frame of the bus, `rs485_frame_t`. The length byte is the length of the
payload, and no payload is longer than the buffer. -/
structure Rs485Frame where
  dest : UInt8
  src : UInt8
  type : UInt8
  seq : UInt8
  payload : List UInt8
  len_le : payload.length ≤ RS485_PAYLOAD_MAX
deriving DecidableEq

/-- The frame of a buffer that nothing was written to yet. -/
def Rs485Frame.zero : Rs485Frame where
  dest := 0
  src := 0
  type := 0
  seq := 0
  payload := []
  len_le := Nat.zero_le _

/-- The frame that `rs485_tx_async_start` puts on the wire: a payload that is
too long is cut. -/
def txFrame (dest src type seq : UInt8) (payload : List UInt8) : Rs485Frame where
  dest := dest
  src := src
  type := type
  seq := seq
  payload := payload.take RS485_PAYLOAD_MAX
  len_le := List.length_take_le _ _

/-- The class of a frame, without the reliability flag. -/
def Rs485Frame.cls (f : Rs485Frame) : UInt8 := f.type &&& RS485_FT_MASK

def opcodeOf (payload : List UInt8) : UInt16 := le16 (payload.getD 0 0) (payload.getD 1 0)

def withOpcode (op : UInt16) (body : List UInt8) : List UInt8 := lo16 op :: hi16 op :: body

@[simp] theorem opcodeOf_withOpcode (op : UInt16) (body : List UInt8) :
    opcodeOf (withOpcode op body) = op := by
  simp [opcodeOf, withOpcode]

@[simp] theorem length_withOpcode (op : UInt16) (body : List UInt8) :
    (withOpcode op body).length = body.length + 2 := rfl

end motioncore.bus
