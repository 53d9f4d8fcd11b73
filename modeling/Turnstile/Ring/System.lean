import Turnstile.Ring
import Turnstile.Steps

/-!
Records and harvests of many threads on one ring, one load or store at a time.
A lock lets one thread write and one thread harvest, each without regard for
the other. Taken one after the other without interruption, the steps of a call
do what `record` and `harvest` do.
-/

namespace Turnstile.Ring

/-- The thread that holds the writers' lock, after its latest step. -/
inductive Writer
  | idle
  | entered (decision : Decision)
  | loaded (decision : Decision) (index : Nat)
  | claimed (decision : Decision) (index : Nat)
  | stored (index : Nat)
  deriving DecidableEq, Repr

/-- The thread that holds the harvesters' lock, after its latest step. -/
inductive Drainer
  | idle
  | entered
  | loadedRead (read : Nat)
  | copying (read published : Nat) (words : List UInt64)
  | checked (read published reserved : Nat) (words : List UInt64)
  | counted (published : Nat) (harvest : Harvest)
  deriving DecidableEq, Repr

structure System where
  ring : Ring
  writer : Writer := .idle
  drainer : Drainer := .idle
  harvests : List Harvest := []

namespace System

def write? (system : System) : Option System :=
  match system.writer with
  | .idle => none
  | .entered decision =>
      some { system with writer := .loaded decision system.ring.reserved }
  | .loaded decision index =>
      some { system with ring := system.ring.claim index, writer := .claimed decision index }
  | .claimed decision index =>
      some { system with
        ring := system.ring.store index decision.toWord, writer := .stored index }
  | .stored index =>
      some { system with ring := system.ring.publish index, writer := .idle }

def drain? (system : System) : Option System :=
  let ring := system.ring
  match system.drainer with
  | .idle => none
  | .entered => some { system with drainer := .loadedRead ring.read }
  | .loadedRead read =>
      if ring.published = read then
        some { system with drainer := .idle, harvests := system.harvests ++ [{}] }
      else some { system with drainer := .copying read ring.published [] }
  | .copying read published words =>
      let index := copyStart ring.capacity read published + words.length
      if index < published then
        some { system with drainer := .copying read published (words ++ [ring.load index]) }
      else some { system with drainer := .checked read published ring.reserved words }
  | .checked read published reserved words =>
      let harvest := harvestOfCopy ring.capacity read published reserved words
      some { system with
        ring := ring.countLost harvest.dropped, drainer := .counted published harvest }
  | .counted published harvest =>
      some { system with
        ring := ring.markRead published, drainer := .idle
        harvests := system.harvests ++ [harvest] }

inductive Move
  /-- A thread takes the writers' lock to record a decision. -/
  | record (decision : Decision)
  | write
  /-- A thread takes the harvesters' lock. -/
  | harvest
  | drain
  deriving DecidableEq, Repr

def step? : Steps System Move
  | system, .record decision =>
      if system.writer = .idle then some { system with writer := .entered decision } else none
  | system, .write => system.write?
  | system, .harvest =>
      if system.drainer = .idle then some { system with drainer := .entered } else none
  | system, .drain => system.drain?

abbrev run? (system : System) (moves : List Move) : Option System :=
  Steps.run? step? system moves

abbrev Reachable (first last : System) : Prop := Steps.Reachable step? first last

/-! Calls that no other thread disturbs. -/

theorem run?_record (system : System) (decision : Decision) (hidle : system.writer = .idle) :
    system.run? [.record decision, .write, .write, .write, .write] =
      some { system with ring := system.ring.record decision } := by
  simp [step?, write?, hidle, Ring.record]

theorem run?_copying (system : System) (read published count : Nat) (words : List UInt64)
    (hcount : copyStart system.ring.capacity read published + words.length + count ≤ published) :
    run? { system with drainer := .copying read published words }
        (List.replicate count .drain) =
      some { system with
        drainer := .copying read published (words ++
          (List.range' (copyStart system.ring.capacity read published + words.length) count).map
            system.ring.load) } := by
  induction count generalizing words with
  | zero => simp
  | succ count ih =>
      have hmore : copyStart system.ring.capacity read published + words.length < published := by
        omega
      have hnext := ih (words ++
        [system.ring.load (copyStart system.ring.capacity read published + words.length)])
        (by simp only [List.length_append, List.length_singleton]; omega)
      simp only [run?, List.replicate_succ, Steps.run?_cons, step?, drain?, hmore, if_true,
        Option.bind_some] at hnext ⊢
      rw [hnext]
      simp [List.range'_succ, Nat.add_assoc]

theorem exists_run?_harvest (system : System) (hidle : system.drainer = .idle) :
    ∃ count, system.run? (.harvest :: List.replicate (count + 1) .drain) =
      some { system with
        ring := system.ring.harvest.2
        harvests := system.harvests ++ [system.ring.harvest.1] } := by
  by_cases hnew : system.ring.published = system.ring.read
  · exact ⟨1, by simp [step?, drain?, hidle, hnew, Ring.harvest]⟩
  · let start := copyStart system.ring.capacity system.ring.read system.ring.published
    have hbegin : system.run? (.harvest :: List.replicate 2 .drain) =
        some { system with
          drainer := .copying system.ring.read system.ring.published [] } := by
      simp [step?, drain?, hidle, hnew]
    have hcopied : run? { system with
          drainer := .copying system.ring.read system.ring.published [] }
        (List.replicate (system.ring.published - start) .drain) =
        some { system with
          drainer := .copying system.ring.read system.ring.published
            (system.ring.copy start system.ring.published) } := by
      by_cases hsome : start ≤ system.ring.published
      · exact run?_copying system _ _ _ [] (by simp only [List.length_nil]; omega)
      · have hnone : system.ring.published - start = 0 := by omega
        simp [hnone, Ring.copy]
    have hlength : (system.ring.copy start system.ring.published).length =
        system.ring.published - start := by
      simp [Ring.copy]
    have hdone : ¬ start + (system.ring.published - start) < system.ring.published := by omega
    have hlast : run? { system with
          drainer := .copying system.ring.read system.ring.published
            (system.ring.copy start system.ring.published) } (List.replicate 3 .drain) =
        some { system with
          ring := system.ring.harvest.2
          harvests := system.harvests ++ [system.ring.harvest.1] } := by
      simp only [List.replicate_succ, List.replicate_zero, Steps.run?_cons, Steps.run?_nil, step?,
        drain?, hlength, start] at hdone ⊢
      simp [hdone, hidle, hnew, Ring.harvest]
    have hmoves : Move.harvest :: List.replicate (system.ring.published - start + 4 + 1) .drain =
        (.harvest :: List.replicate 2 .drain) ++
          (List.replicate (system.ring.published - start) .drain ++ List.replicate 3 .drain) := by
      rw [List.cons_append, List.replicate_append_replicate, List.replicate_append_replicate]
      congr 2
      omega
    refine ⟨system.ring.published - start + 4, ?_⟩
    rw [hmoves]
    exact Steps.run?_append_of_run? hbegin (Steps.run?_append_of_run? hcopied hlast)

end System

end Turnstile.Ring
