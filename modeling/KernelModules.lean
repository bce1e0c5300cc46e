import KernelModules.Activate
import KernelModules.Alternation
import KernelModules.Bindable
import KernelModules.BringUp
import KernelModules.DlistsSwept
import KernelModules.Fkms
import KernelModules.Flatten
import KernelModules.GenPoolFit
import KernelModules.GenPoolSafety
import KernelModules.GpuFences
import KernelModules.HvsMuxes
import KernelModules.IrqLines
import KernelModules.IrqMask
import KernelModules.Isolation
import KernelModules.KextSymbols
import KernelModules.MatchRequests
import KernelModules.OfOwnership
import KernelModules.OfWalk
import KernelModules.Personalities
import KernelModules.PlaneRoom
import KernelModules.Rational
import KernelModules.Reattach
import KernelModules.Registration
import KernelModules.Rollback
import KernelModules.ShmemUsers
import KernelModules.Undo
import KernelModules.VbvaExact
import KernelModules.VirtioDrain
import KernelModules.VmallocSgt
