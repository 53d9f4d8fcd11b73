/-!
The times at which one client's requests were admitted, as far as they still
count against its limit. Times that have left the span are dropped from the
front, and only when a request or a call for it comes.
-/

namespace Turnstile

structure Window where
  times : List Nat := []
  deriving DecidableEq, Repr

namespace Window

def size (window : Window) : Nat := window.times.length

def isEmpty (window : Window) : Bool := window.times.isEmpty

def oldest? (window : Window) : Option Nat := window.times.head?

/-- A time has expired once it lies a whole span back. A time in the future is zero back. -/
def Expired (now span time : Nat) : Prop := span ≤ now - time

instance : Decidable (Expired now span time) := inferInstanceAs (Decidable (_ ≤ _))

/-- Drops expired times from the front, up to the first that has not expired. -/
def prune (window : Window) (now span : Nat) : Window :=
  ⟨window.times.dropWhile fun time => Expired now span time⟩

def expiredCount (window : Window) (now span : Nat) : Nat :=
  (window.times.takeWhile fun time => Expired now span time).length

def allow (window : Window) (now limit span : Nat) : Bool × Window :=
  let pruned := window.prune now span
  if pruned.size < limit then (true, ⟨pruned.times ++ [now]⟩) else (false, pruned)

theorem expiredCount_add_size_prune (window : Window) (now span : Nat) :
    window.expiredCount now span + (window.prune now span).size = window.size := by
  unfold expiredCount prune size
  rw [← List.length_append, List.takeWhile_append_dropWhile]

theorem allow_fst_iff (window : Window) (now limit span : Nat) :
    (window.allow now limit span).1 = true ↔ (window.prune now span).size < limit := by
  simp only [allow]
  split <;> simp_all

end Window

end Turnstile
