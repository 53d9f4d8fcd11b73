import Turnstile.Proofs.History
import Turnstile.Proofs.Ring.Slots
import Turnstile.Ring.System

/-!
What happens in an interleaving of records and harvests, as a list of events,
and what makes one harvest exact in the light of the events before it.
-/

namespace Turnstile.Ring.System

def start (capacity : Nat) (hpositive : 0 < capacity) : System where
  ring := ofCapacity capacity hpositive

inductive Event
  /-- A thread has the writers' lock. -/
  | called (decision : Decision)
  | claimed (index : Nat)
  | stored (index : Nat) (decision : Decision)
  /-- A harvest has loaded both of its cursors. -/
  | opened (read published : Nat)
  /-- A harvest has copied its slots and loaded `reserved`. -/
  | checked
  | returned (harvest : Harvest)
  deriving DecidableEq

def events (system : System) : Move → List Event
  | .record decision => [.called decision]
  | .write =>
      match system.writer with
      | .loaded _ index => [.claimed index]
      | .claimed decision index => [.stored index decision]
      | .idle | .entered _ | .stored _ => []
  | .harvest => []
  | .drain =>
      match system.drainer with
      | .loadedRead read =>
          if system.ring.published = read then [.opened read read, .returned {}]
          else [.opened read system.ring.published]
      | .copying read published words =>
          if copyStart system.ring.capacity read published + words.length < published then []
          else [.checked]
      | .counted _ harvest => [.returned harvest]
      | .idle | .entered | .checked .. => []

def note (system : System) (move : Move) (seen : List Event) : List Event :=
  seen ++ system.events move

def log (first : System) (moves : List Move) : List Event :=
  Steps.history step? note [] first moves

/-! What a log tells. -/

def records (log : List Event) : List (Nat × Decision) :=
  log.filterMap fun
    | .stored index decision => some (index, decision)
    | _ => none

def recorded (log : List Event) : List Decision := (records log).map Prod.snd

def calls (log : List Event) : List Decision :=
  log.filterMap fun
    | .called decision => some decision
    | _ => none

def returns (log : List Event) : List Harvest :=
  log.filterMap fun
    | .returned harvest => some harvest
    | _ => none

def accounted (log : List Event) : Nat :=
  ((returns log).map fun harvest => harvest.events.length + harvest.dropped).sum

def During (log : List Event) (event : Event) (early : List Event) : Prop :=
  ∃ late, log = early ++ event :: late ∧ returns late = []

/-- A harvest that has to take up from `read` on takes the decisions from
`first` up to `stop`, each as its own record stored it, and gives up the ones
before `first`: those had lost their slots to claims of a lap later. -/
structure Exact (capacity : Nat) (past : List Event) (read first stop : Nat)
    (harvest : Harvest) : Prop where
  opened : ∃ early, During past (.opened read stop) early
  read_eq : read = accounted past
  read_le : read ≤ first
  first_le : first ≤ stop
  stop_le : stop ≤ (records past).length
  events_eq : harvest.events =
    (((recorded past).drop first).take (stop - first)).map Decision.kept
  dropped_eq : harvest.dropped = first - read
  overwritten : ∀ index, read ≤ index → index < first →
    ∃ early, During past .checked early ∧ .claimed (index + capacity) ∈ early

@[simp] theorem records_append (first second : List Event) :
    records (first ++ second) = records first ++ records second :=
  List.filterMap_append

@[simp] theorem recorded_append (first second : List Event) :
    recorded (first ++ second) = recorded first ++ recorded second := by
  simp [recorded]

@[simp] theorem calls_append (first second : List Event) :
    calls (first ++ second) = calls first ++ calls second :=
  List.filterMap_append

@[simp] theorem returns_append (first second : List Event) :
    returns (first ++ second) = returns first ++ returns second :=
  List.filterMap_append

@[simp] theorem length_recorded (log : List Event) :
    (recorded log).length = (records log).length := by
  simp [recorded]

theorem accounted_append (first second : List Event) :
    accounted (first ++ second) = accounted first + accounted second := by
  simp [accounted]

theorem accounted_of_returns_nil {late : List Event} (hlate : returns late = []) :
    accounted late = 0 := by
  simp [accounted, hlate]

theorem During.now (past : List Event) (event : Event) : During (past ++ [event]) event past :=
  ⟨[], rfl, rfl⟩

theorem During.append {past early late : List Event} {event : Event}
    (h : During past event early) (hlate : returns late = []) :
    During (past ++ late) event early := by
  obtain ⟨middle, rfl, hmiddle⟩ := h
  exact ⟨middle ++ late, by simp, by simp [hmiddle, hlate]⟩

theorem Exact.append {capacity read first stop : Nat} {past late : List Event}
    {harvest : Harvest} (h : Exact capacity past read first stop harvest)
    (hlate : returns late = []) :
    Exact capacity (past ++ late) read first stop harvest where
  opened := h.opened.imp fun _ hopened => hopened.append hlate
  read_eq := by rw [h.read_eq, accounted_append, accounted_of_returns_nil hlate, Nat.add_zero]
  read_le := h.read_le
  first_le := h.first_le
  stop_le := by
    have hstop := h.stop_le
    simp only [records_append, List.length_append]
    omega
  events_eq := by
    have hstop : stop ≤ (recorded past).length := by simpa using h.stop_le
    have hfirst := h.first_le
    rw [h.events_eq, recorded_append, List.drop_append_of_le_length (by omega),
      List.take_append_of_le_length (by rw [List.length_drop]; omega)]
  dropped_eq := h.dropped_eq
  overwritten := fun index hread hindex => by
    obtain ⟨early, hduring, hclaimed⟩ := h.overwritten index hread hindex
    exact ⟨early, hduring.append hlate, hclaimed⟩

theorem prefix_of_returns_nil {past log late : List Event} {harvest : Harvest}
    (hlate : returns late = []) (h : past ++ [.returned harvest] <+: log ++ late) :
    past ++ [.returned harvest] <+: log := by
  rcases List.prefix_or_prefix_of_prefix h (List.prefix_append log late) with hold | hnew
  · exact hold
  · obtain ⟨rest, hrest⟩ := hnew
    rcases List.eq_nil_or_concat rest with rfl | ⟨begin, final, hconcat⟩
    · rw [List.append_nil] at hrest
      exact hrest ▸ List.prefix_rfl
    · rw [List.concat_eq_append] at hconcat
      subst hconcat
      have hfinal : final = .returned harvest := by
        have hlast := congrArg List.getLast? hrest
        simpa using hlast
      have hrest' : begin ++ [final] <+: late := by
        rw [← hrest] at h
        exact (List.prefix_append_right_inj log).mp h
      obtain ⟨tail, rfl⟩ := hrest'
      subst hfinal
      simp [returns] at hlate

end Turnstile.Ring.System
