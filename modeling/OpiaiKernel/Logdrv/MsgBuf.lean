import OpiaiKernel.Lib.Ring

/-!
# The message buffer of the log driver

The logs of the channels are collected behind the head of a message before they
are sent to the host, `struct log_msg_buf` of `log_drv_dev.h`.
-/

namespace OpiaiKernel.Logdrv

/-- `sizeof(struct log_msg_head)`, which is also `head_size`. -/
abbrev LOG_MSG_HEAD_SIZE : ℕ := 12

inductive LogRet
  | ok
  | error
  | eof
  | timeout
  deriving DecidableEq

/-- The buffer with the bytes from `buf_addr` on; the head of the message stands
at `buf_addr` and the data behind it. -/
structure LogMsgBuf where
  buf : ℕ → UInt8
  bufSize : ℕ
  dataSize : ℕ

namespace LogMsgBuf

/-- `buf_addr + buf_size - out_buf`. -/
def outAvailSize (recvBuf : LogMsgBuf) : ℤ :=
  (recvBuf.bufSize : ℤ) - (LOG_MSG_HEAD_SIZE + recvBuf.dataSize)

/-- The bytes from `data_addr` on. -/
def data (recvBuf : LogMsgBuf) : List UInt8 :=
  Ring.slice recvBuf.buf LOG_MSG_HEAD_SIZE recvBuf.dataSize

/-- Copy bytes to `out_buf` and count them. -/
def append (recvBuf : LogMsgBuf) (bytes : List UInt8) : LogMsgBuf :=
  { recvBuf with
    buf := Ring.fill recvBuf.buf (LOG_MSG_HEAD_SIZE + recvBuf.dataSize) bytes
    dataSize := recvBuf.dataSize + bytes.length }

theorem data_append (recvBuf : LogMsgBuf) (bytes : List UInt8) :
    (recvBuf.append bytes).data = recvBuf.data ++ bytes := by
  rw [data, append, Ring.slice_add, Ring.slice_fill, Ring.slice_fill_of_disjoint _ (.inl (by omega))]
  rfl

end LogMsgBuf

end OpiaiKernel.Logdrv
