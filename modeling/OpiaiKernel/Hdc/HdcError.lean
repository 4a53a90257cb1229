import Mathlib.Init

/-!
# Error codes of the host driver

The codes of `hdcdrv_cmd.h` that the modelled functions return, and the mark of a
process that is not there.
-/

namespace OpiaiKernel.Hdc

def HDCDRV_INVALID_PID : UInt64 := 0x7FFFFFFE

inductive HdcError
  | err
  | paraErr
  | noEpollFd
  | noPermission
  | sessionHasClosed
  | epollClose
  | dmaMemAllocFail
  | memNotMatch
  deriving DecidableEq, Repr

end OpiaiKernel.Hdc
