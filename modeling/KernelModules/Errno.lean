import Mathlib.Data.Nat.Notation

/-!
# Error numbers

The values of FreeBSD's `errno.h`, and Linux's `EPROBE_DEFER`.
-/

namespace KernelModules

def ENXIO : Int := 6

def ENOMEM : Int := 12

def ENODEV : Int := 19

def EINVAL : Int := 22

def ENOSPC : Int := 28

def EMSGSIZE : Int := 40

def ENOTSUP : Int := 45

def ENODATA : Int := 61

def EPROBE_DEFER : Int := 517

end KernelModules
