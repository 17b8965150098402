-- The opcodes of the host link and of the RS-485 bus (`opcodes.h`), the ids
-- of the bus controller's commands, and the status codes of a reply.
import Mathlib.Tactic.Common

namespace motioncore

/-! ## Dongle to host -/

def OP_REGISTER : UInt16 := 0x0001
def OP_HEARTBEAT : UInt16 := 0x0002
def OP_NAK : UInt16 := 0x0007
def OP_MANIFEST_REPLY : UInt16 := 0x0008
def OP_SHELL_REPLY : UInt16 := 0x0011
def OP_BUS_SLAVE_DOWN : UInt16 := 0x0015
def OP_BUS_SLAVE_UP : UInt16 := 0x0016
def OP_BUS_SLAVE_FLAGGED : UInt16 := 0x0017
def OP_BUS_CMD_ACK : UInt16 := 0x0018
def OP_BUS_CMD_NAK : UInt16 := 0x0019
def OP_BUS_INTERLOCK_MSG : UInt16 := 0x001A
def OP_BUS_STATUS_REPORT : UInt16 := 0x001B

/-! ## Host to dongle -/

def OP_REGISTER_ACK : UInt16 := 0x0103
def OP_PING : UInt16 := 0x0104
def OP_COMMISSION_SET : UInt16 := 0x0105
def OP_COMMISSION_CLEAR : UInt16 := 0x0106
def OP_GET_MANIFEST : UInt16 := 0x0107
def OP_OPERATIONAL_BEGIN : UInt16 := 0x0108
def OP_SHELL_EXEC : UInt16 := 0x0109
def OP_POLL : UInt16 := 0x010A
def OP_BUS_EXEC : UInt16 := 0x010B

/-- The opcodes that the host may send. -/
def m2sOpcodes : List UInt16 :=
  [OP_REGISTER_ACK, OP_PING, OP_COMMISSION_SET, OP_COMMISSION_CLEAR, OP_GET_MANIFEST,
    OP_OPERATIONAL_BEGIN, OP_SHELL_EXEC, OP_POLL, OP_BUS_EXEC]

/-! ## Events of the engine -/

def SE_EVENT_TICK : UInt16 := 4
def SE_EVENT_INIT : UInt16 := 0xFFFE
def SE_EVENT_TERMINATE : UInt16 := 0xFFFD

/-- The first of the ids that never come over the wire. -/
def EV_HOST_REATTACH : UInt16 := 0xFE00

end motioncore
