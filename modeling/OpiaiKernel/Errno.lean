/-!
# Error codes

The error codes that the modelled functions return, as the kernel names them.
-/

namespace OpiaiKernel

inductive Errno
  | EPERM
  | ENXIO
  | EAGAIN
  | ENOMEM
  | EACCES
  | EFAULT
  | EBUSY
  | EEXIST
  | ENODEV
  | EINVAL
  | ENOSPC
  | EBADR
  | EOVERFLOW
  | EOPNOTSUPP
  | ETIMEDOUT
  | ESRCH
  | ERESTARTSYS
  deriving DecidableEq, Repr

end OpiaiKernel
