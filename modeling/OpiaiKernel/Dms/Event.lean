import Mathlib.Data.Nat.Notation

/-!
# Events of the device management

The parameters of an event, as they stand in a node of the event list and as
they go through the filter, the convergence and the list, from `dms_cmd_def.h`,
with the results of these functions.
-/

namespace OpiaiKernel.Dms

abbrev DMS_MAX_EVENT_NUM : ℕ := 512

/-- The results of the event functions. -/
inductive DrvError
  | none
  | paraError
  | innerErr
  | outOfMemory
  | eventNotMatch
  deriving DecidableEq, Repr

/-- `struct dms_event_para`. -/
structure DmsEventPara where
  eventCode : UInt32
  pid : Int32
  eventId : UInt32
  deviceid : UInt16
  nodeType : UInt16
  nodeId : UInt8
  subNodeType : UInt16
  subNodeId : UInt8
  severity : UInt8
  assertion : UInt8
  eventSerialNum : Int32
  notifySerialNum : Int32
  alarmRaisedTime : UInt64
  eventName : List UInt8
  additionalInfo : List UInt8
  deriving DecidableEq, Inhabited

end OpiaiKernel.Dms
