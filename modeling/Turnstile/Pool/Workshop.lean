import Turnstile.Pool.Errand

/-! A pool at work on errands, with all that its threads can see. -/

namespace Turnstile

structure Workshop where
  system : Pool.System Scene.Question
  scene : Scene := {}

namespace Workshop

def pool (workshop : Workshop) : Pool Scene.Question := workshop.system.pool

def settle (workshop : Workshop) : Workshop :=
  let (system, scene) := workshop.system.settle Scene.answer workshop.scene
  { system, scene }

def start? (config : PoolConfig) : Except SetupError Workshop :=
  (Pool.start? config).map fun pool => settle { system := { pool } }

/-- Submits an errand. Its failures are not seen by the pool if it was
submitted as one that cannot fail. -/
def submit (workshop : Workshop) (fallible : Bool) (errand : Errand) :
    Except Pool.Rejection Unit × Workshop :=
  let job := errand.job id
  let (answer, pool) := workshop.pool.submit (if fallible then job else job.infallible)
  (answer, settle { workshop with system := { workshop.system with pool } })

def release (workshop : Workshop) (gate : String) : Workshop :=
  settle { workshop with scene := workshop.scene.release gate }

def releaseAll (workshop : Workshop) : Workshop :=
  settle { workshop with scene := workshop.scene.releaseAll }

/-- Shuts the pool down from outside. While jobs stand at gates the call does not return. -/
def shutdown (workshop : Workshop) : Workshop :=
  settle { workshop with system := workshop.system.call (.shutdown (.finish .returned)) }

end Workshop

end Turnstile
