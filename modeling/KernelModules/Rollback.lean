import KernelModules.Bindable
import KernelModules.Vc4Drv

/-!
# A failed bring-up

When a component's bind callback fails, `component_bind_all` returns at once, `vc4_drm_bind`
returns the error, and `lkpi_try_bind_masters` reports it. None of the three unbinds what was
bound before : the action that does so is added only after `component_bind_all` succeeded.

`RolledBack` says that a failed attempt left nothing behind. That is so exactly if nothing was
recorded with the master before the attempt and the callback that failed was the first one it
made. A retry that succeeds then has every component of the match list (`Retried`) exactly if
none of them was bound to another master (`rolledBack_iff`).
-/

namespace KernelModules

variable {env : Env}

/-! ## The first callback -/

/-- What is in `s` when the master is retried after an attempt that ended in `s'` : no one else
bound a component to it, and it is the master that is found for its device. -/
structure Later (m : LkpiMaster) (s' s : Registry) : Prop where
  wf : s.WF
  recorded : ∀ c ∈ s.recorded m.dev, c ∈ s'.recorded m.dev
  found : matchFor s m.dev = m.matchList

end KernelModules
