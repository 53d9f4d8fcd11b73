import Turnstile.Lists
import Turnstile.Steps

/-!
What can be told of a run afterwards: a history that every step may add to and
that no step can read. What holds of state and history at first, and is kept
by every step, holds of them at the end of every run.
-/

namespace Turnstile.Steps

variable {State : Type u} {Move : Type v} {History : Type w}
  {step? : Steps State Move} {note : State → Move → History → History}

/-- The history of a run that begins with `seen`; `note` adds what a step does. -/
def history (step? : Steps State Move) (note : State → Move → History → History) :
    History → State → List Move → History
  | seen, _, [] => seen
  | seen, first, move :: rest =>
      match step? first move with
      | none => seen
      | some next => history step? note (note first move seen) next rest

@[simp] theorem history_nil (seen : History) (first : State) :
    history step? note seen first [] = seen := rfl

theorem history_cons_of_step {first next : State} {move : Move} (seen : History)
    (rest : List Move) (hstep : step? first move = some next) :
    history step? note seen first (move :: rest) =
      history step? note (note first move seen) next rest := by
  simp only [history, hstep]

theorem history_append {first middle : State} {before : List Move} (seen : History)
    (after : List Move) (hbefore : run? step? first before = some middle) :
    history step? note seen first (before ++ after) =
      history step? note (history step? note seen first before) middle after := by
  induction before generalizing first seen with
  | nil =>
      cases hbefore
      rfl
  | cons move rest ih =>
      simp only [run?_cons, Option.bind_eq_some_iff] at hbefore
      obtain ⟨next, hstep, hrest⟩ := hbefore
      rw [List.cons_append, history_cons_of_step _ _ hstep, history_cons_of_step _ _ hstep]
      exact ih _ hrest

theorem history_concat {first middle after : State} {before : List Move} {move : Move}
    (seen : History) (hbefore : run? step? first before = some middle)
    (hstep : step? middle move = some after) :
    history step? note seen first (before ++ [move]) =
      note middle move (history step? note seen first before) := by
  rw [history_append _ _ hbefore, history_cons_of_step _ _ hstep, history_nil]

/-- What holds before the first move and is kept by each one holds at the end of a run. The
moves so far, and with them all histories, are in reach. -/
theorem run_induction {Holds : List Move → State → Prop} {first last : State} {moves : List Move}
    (hrun : run? step? first moves = some last) (hfirst : Holds [] first)
    (hkept : ∀ before middle, run? step? first before = some middle → Holds before middle →
      ∀ move ∈ moves, ∀ after, step? middle move = some after → Holds (before ++ [move]) after) :
    Holds moves last := by
  suffices hall : ∀ before after middle, moves = before ++ after →
      run? step? first before = some middle → Holds before middle →
      run? step? middle after = some last → Holds moves last from
    hall [] moves first rfl rfl hfirst hrun
  intro before after
  induction after generalizing before with
  | nil =>
      intro middle hmoves _ hholds hrest
      cases hrest
      rwa [hmoves, List.append_nil]
  | cons move rest ih =>
      intro middle hmoves hbefore hholds hrest
      simp only [run?_cons, Option.bind_eq_some_iff] at hrest
      obtain ⟨next, hstep, hlater⟩ := hrest
      have hmem : move ∈ moves := hmoves ▸ List.mem_append_right before List.mem_cons_self
      have hmoved : run? step? first (before ++ [move]) = some next :=
        run?_append_of_run? hbefore (by rw [run?_cons, hstep]; rfl)
      refine ih (before ++ [move]) next ?_ hmoved (hkept before middle hbefore hholds move hmem
        next hstep) hlater
      rw [hmoves, List.append_assoc]
      rfl

theorem run_induction_append {Holds : List Move → State → Prop} {first middle last : State}
    {before after : List Move} (hbefore : run? step? first before = some middle)
    (hafter : run? step? middle after = some last) (hmiddle : Holds before middle)
    (hkept : ∀ moves state, run? step? first moves = some state → Holds moves state →
      ∀ move ∈ after, ∀ next, step? state move = some next → Holds (moves ++ [move]) next) :
    Holds (before ++ after) last := by
  let Later (moves : List Move) (state : State) : Prop :=
    run? step? first (before ++ moves) = some state ∧ Holds (before ++ moves) state
  have hfirst : Later [] middle := by
    rw [← List.append_nil before] at hbefore hmiddle
    exact ⟨hbefore, hmiddle⟩
  have hlater : Later after last :=
    run_induction hafter hfirst fun moves state _ h move hmem next hstep => by
      obtain ⟨hrun, hholds⟩ := h
      have hmoved : run? step? first (before ++ moves ++ [move]) = some next :=
        run?_append_of_run? hrun (by rw [run?_cons, hstep]; rfl)
      have hnext := hkept _ _ hrun hholds move hmem next hstep
      rw [List.append_assoc] at hmoved hnext
      exact ⟨hmoved, hnext⟩
  exact hlater.2

theorem history_invariant {Holds : State → History → Prop} {first last : State}
    {moves : List Move} {seen : History} (hrun : run? step? first moves = some last)
    (hfirst : Holds first seen)
    (hkept : ∀ before move after seen, Holds before seen →
      step? before move = some after → Holds after (note before move seen)) :
    Holds last (history step? note seen first moves) := by
  induction moves generalizing first seen with
  | nil =>
      cases hrun
      exact hfirst
  | cons move rest ih =>
      simp only [run?_cons, Option.bind_eq_some_iff] at hrun
      obtain ⟨next, hstep, hrest⟩ := hrun
      rw [history_cons_of_step _ _ hstep]
      exact ih hrest (hkept first move next seen hfirst hstep)

/-- As `history_invariant`, where a step needs to keep only what holds in states that the run
can be in. -/
theorem history_invariant_of_reachable {Holds : State → History → Prop} {first last : State}
    {moves : List Move} {seen : History} (hrun : run? step? first moves = some last)
    (hfirst : Holds first seen)
    (hkept : ∀ before move after seen, Reachable step? first before → Holds before seen →
      step? before move = some after → Holds after (note before move seen)) :
    Holds last (history step? note seen first moves) := by
  let Both (state : State) (seen : History) := Reachable step? first state ∧ Holds state seen
  have hboth : Both last (history step? note seen first moves) :=
    history_invariant hrun ⟨.refl first, hfirst⟩ fun before move after seen h hstep =>
      ⟨h.1.step hstep, hkept before move after seen h.1 h.2 hstep⟩
  exact hboth.2

theorem history_map {Part : Type x} (part : History → Part) {notePart : State → Move → Part → Part}
    (hnote : ∀ state move seen, part (note state move seen) = notePart state move (part seen))
    (seen : History) (first : State) (moves : List Move) :
    part (history step? note seen first moves) =
      history step? notePart (part seen) first moves := by
  induction moves generalizing first seen with
  | nil => rfl
  | cons move rest ih =>
      simp only [history]
      split
      · rfl
      · rw [ih, hnote]

/-- Where moves of a kind use up what is left, and others add to it, a run has no
more moves of that kind than was left at first and was added on the way. -/
theorem add_countP_le {Holds : State → Prop} {left : State → Nat} {p : Move → Bool}
    {added : Move → Nat} {first last : State} {moves : List Move}
    (hrun : run? step? first moves = some last) (hfirst : Holds first)
    (hkept : ∀ before move after, Holds before → step? before move = some after →
      Holds after ∧ left after + (p move).toNat ≤ left before + added move) :
    left last + moves.countP p ≤ left first + sumOf added moves := by
  induction moves generalizing first with
  | nil =>
      cases hrun
      exact Nat.le_refl _
  | cons move rest ih =>
      simp only [run?_cons, Option.bind_eq_some_iff] at hrun
      obtain ⟨next, hstep, hrest⟩ := hrun
      obtain ⟨hnext, hused⟩ := hkept first move next hfirst hstep
      have hlater := ih hrest hnext
      rw [List.countP_cons, sumOf_cons]
      cases hp : p move <;> simp only [hp, Bool.toNat_true, Bool.toNat_false] at hused <;>
        simp only [if_true, Bool.false_eq_true, if_false] <;> omega

end Turnstile.Steps
