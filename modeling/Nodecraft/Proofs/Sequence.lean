/-!
# Actions one after the other

What comes of two actions, where what comes of the first one is known.
-/

set_option autoImplicit false

namespace Nodecraft

variable {ε σ α β : Type} {f : α → EStateM ε σ β} {s s' : σ}

theorem bind_of_ok {x : EStateM ε σ α} {a : α} (h : x s = .ok a s') : (x >>= f) s = f a s' := by
  change EStateM.bind x f s = _
  unfold EStateM.bind
  rw [h]

theorem bind_of_error {x : EStateM ε σ α} {e : ε} (h : x s = .error e s') :
    (x >>= f) s = .error e s' := by
  change EStateM.bind x f s = _
  unfold EStateM.bind
  rw [h]

theorem bind_congr_left {x y : EStateM ε σ α} (h : x s = y s) : (x >>= f) s = (y >>= f) s := by
  change EStateM.bind x f s = EStateM.bind y f s
  unfold EStateM.bind
  rw [h]

end Nodecraft
