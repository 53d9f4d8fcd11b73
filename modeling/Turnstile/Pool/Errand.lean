import Turnstile.Metric
import Turnstile.Pool.System

/-!
Jobs that can be watched: they write notes, and wait at gates that open once
and stay open.
-/

namespace Turnstile

structure Scene where
  notes : Array String := #[]
  opened : List String := []
  /-- All gates are open, also those that nobody has named yet. -/
  allOpen : Bool := false
  deriving DecidableEq, Repr

namespace Scene

inductive Question
  | note (text : String)
  | await (gate : String)
  deriving DecidableEq, Repr

def isOpen (scene : Scene) (gate : String) : Bool := scene.allOpen || scene.opened.contains gate

def release (scene : Scene) (gate : String) : Scene :=
  { scene with opened := gate :: scene.opened }

def releaseAll (scene : Scene) : Scene := { scene with allOpen := true }

/-- Notes are taken down at once; a gate keeps a thread waiting until it is open. -/
def answer : Pool.System.Surroundings Question Scene
  | .note text, scene => some (true, { scene with notes := scene.notes.push text })
  | .await gate, scene => if scene.isOpen gate then some (true, scene) else none

/-- The notes as one thread writes them, or sorted where several threads write. -/
def shownNotes (scene : Scene) (workers : Nat) : List String :=
  if workers = 1 then scene.notes.toList else sortTexts scene.notes.toList

end Scene

inductive Errand.Act
  | nothing
  | waitAtGate
  | fail (error : String)
  | panic (text : String)
  | shutdown
  | submitEmpty (count : Nat)
  deriving DecidableEq, Repr

structure Errand where
  id : String
  act : Errand.Act := .nothing
  deriving DecidableEq, Repr

namespace Errand

open Pool (Routine Rejection)

def flags (answers : List Bool) : String :=
  String.ofList (answers.map fun answer => if answer then '1' else '0')

def accepted : Except Rejection Unit → Bool
  | .ok _ => true
  | .error _ => false

/-- The job that carries out an errand and writes `note`; `scene` turns a
question about the scene into one that the pool's surroundings understand. -/
def routine (scene : Scene.Question → Question) (note : String) (errand : Errand) :
    Routine Question :=
  match errand.act with
  | .nothing => .tell (scene (.note note)) (.finish .returned)
  | .waitAtGate =>
      .tell (scene (.await errand.id)) (.tell (scene (.note note)) (.finish .returned))
  | .fail error => .tell (scene (.note note)) (.finish (.failed error))
  | .panic text => .tell (scene (.note note)) (.finish (.panicked text))
  | .shutdown =>
      .shutdown <| .observe fun phase =>
        .tell (scene (.note (note ++ ":" ++ phase.text))) (.finish .returned)
  | .submitEmpty count =>
      .submitAll (.finish .returned) count fun answers =>
        .tell (scene (.note (note ++ ":" ++ flags (answers.map accepted)))) (.finish .returned)

def job (scene : Scene.Question → Question) (errand : Errand) : Routine Question :=
  errand.routine scene errand.id

def handler (scene : Scene.Question → Question) (errand : Errand) (batch : Batch) :
    Routine Question :=
  let names := (batch.metrics.take 3).map Metric.name
  errand.routine scene
    ("/".intercalate [errand.id, batch.source, toString batch.size, ",".intercalate names])

end Errand

end Turnstile
