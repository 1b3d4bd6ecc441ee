import Mathlib.Order.Lattice
import Qiftop.Qt.Prelude

/-!
# Backend — eagerness and tuning

`backend/ProcessResolver.h`: how eagerly flows are attributed, and the refresh intervals and budgets
that follow from it.  The agent's configuration is a mode and up to two intervals that replace the
mode's own.
-/

namespace Qiftop.Backend
open Qt

/-- The mode of attribution; `Off < Balanced < Eager`. -/
inductive AttributionEagerness where
  | Off | Balanced | Eager
  deriving DecidableEq, Repr

namespace AttributionEagerness

/-- The value of the enumerator. -/
def toNat : AttributionEagerness → ℕ
  | .Off => 0
  | .Balanced => 1
  | .Eager => 2

theorem toNat_injective : Function.Injective toNat := by
  intro a b
  cases a <;> cases b <;> simp [toNat]

instance : LinearOrder AttributionEagerness := LinearOrder.lift' toNat toNat_injective

end AttributionEagerness

/-- Refresh intervals of the resolvers and budgets of the deep pass. -/
structure ResolverTuning where
  cacheRefreshMs : Int := 1000
  containerCacheMs : Int := 2000
  netnsRefreshMs : Int := 5000
  deepQueueMax : Int := 8192
  deepBatchMax : Int := 256
  deepCoalesceMs : Int := 100
  deepMaxAttempts : Int := 12
  deepDemandNetnsScan : Bool := false
  deriving DecidableEq, Repr

def balancedResolverTuning : ResolverTuning := {}

def eagerResolverTuning : ResolverTuning where
  cacheRefreshMs := 250
  containerCacheMs := 1000
  netnsRefreshMs := 1000
  deepBatchMax := 2048
  deepCoalesceMs := 50
  deepDemandNetnsScan := true

def offResolverTuning : ResolverTuning where
  cacheRefreshMs := 0
  containerCacheMs := 0
  netnsRefreshMs := 0

/-- The preset of a mode. -/
def presetTuning : AttributionEagerness → ResolverTuning
  | .Off => offResolverTuning
  | .Balanced => balancedResolverTuning
  | .Eager => eagerResolverTuning

/-- The preset with the overrides applied; `Off` takes none. -/
def resolverTuningFor (eagerness : AttributionEagerness) (cacheRefreshOverrideMs : Int := 0)
    (netnsRefreshOverrideMs : Int := 0) : ResolverTuning :=
  if eagerness = .Off then offResolverTuning
  else
    let tuning := presetTuning eagerness
    let tuning := if cacheRefreshOverrideMs > 0 then { tuning with
      cacheRefreshMs := cacheRefreshOverrideMs
      containerCacheMs := cacheRefreshOverrideMs } else tuning
    if netnsRefreshOverrideMs > 0 then { tuning with netnsRefreshMs := netnsRefreshOverrideMs }
    else tuning

/-- The agent's `[attribution]` section. -/
structure ProcessResolverConfig where
  eagerness : AttributionEagerness := .Balanced
  processAttribution : Bool := true
  containerAttribution : Bool := true
  netnsScan : Bool := true
  tuning : ResolverTuning := balancedResolverTuning

end Qiftop.Backend
