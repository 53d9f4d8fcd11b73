/-!
Systems given by their single steps. A move that is not possible in a state has
no step there; a run takes one move after the other.
-/

namespace Turnstile

abbrev Steps (State : Type u) (Move : Type v) := State → Move → Option State

namespace Steps

variable {State : Type u} {Move : Type v} {step? : Steps State Move}

def run? (step? : Steps State Move) (first : State) (moves : List Move) : Option State :=
  moves.foldlM step? first

@[simp] theorem run?_nil (first : State) : run? step? first [] = some first := rfl

@[simp] theorem run?_cons (first : State) (move : Move) (moves : List Move) :
    run? step? first (move :: moves) =
      (step? first move).bind fun next => run? step? next moves := rfl

theorem run?_append (first : State) (before after : List Move) :
    run? step? first (before ++ after) =
      (run? step? first before).bind fun middle => run? step? middle after := by
  induction before generalizing first with
  | nil => rfl
  | cons move rest ih =>
      simp only [List.cons_append, run?_cons, Option.bind_assoc]
      congr 1
      funext next
      exact ih next

theorem run?_append_of_run? {first middle last : State} {before after : List Move}
    (hbefore : run? step? first before = some middle)
    (hafter : run? step? middle after = some last) :
    run? step? first (before ++ after) = some last := by
  rw [run?_append, hbefore, Option.bind_some, hafter]

def Reachable (step? : Steps State Move) (first last : State) : Prop :=
  ∃ moves, run? step? first moves = some last

namespace Reachable

theorem refl (first : State) : Reachable step? first first := ⟨[], rfl⟩

theorem trans {first middle last : State} (hfirst : Reachable step? first middle)
    (hlast : Reachable step? middle last) : Reachable step? first last := by
  obtain ⟨before, hbefore⟩ := hfirst
  obtain ⟨after, hafter⟩ := hlast
  exact ⟨before ++ after, run?_append_of_run? hbefore hafter⟩

theorem step {first before after : State} {move : Move} (h : Reachable step? first before)
    (hstep : step? before move = some after) : Reachable step? first after :=
  h.trans ⟨[move], by simp [hstep]⟩

theorem invariant {Holds : State → Prop} {first last : State}
    (h : Reachable step? first last) (hfirst : Holds first)
    (hkept : ∀ before move after,
      Holds before → step? before move = some after → Holds after) :
    Holds last := by
  obtain ⟨moves, hrun⟩ := h
  induction moves generalizing first with
  | nil =>
      cases hrun
      exact hfirst
  | cons move rest ih =>
      simp only [run?_cons, Option.bind_eq_some_iff] at hrun
      obtain ⟨next, hstep, hrest⟩ := hrun
      exact ih (hkept first move next hfirst hstep) hrest

end Reachable

end Steps

end Turnstile
