/-!
# The shutdown permit

Whoever wants the program to stop gives notice, and whoever waits for that takes the permit which
the notice left. There is at most one permit: notices given before anyone takes it come to one.
-/

set_option autoImplicit false

namespace MessageFeed.Shutdown

/-- Whether a permit is stored. -/
structure Permit where
  stored : Bool
  deriving DecidableEq, Repr

namespace Permit

/-- No notice has been given yet. -/
def absent : Permit := ⟨false⟩

/-- Gives notice. -/
def notify (_ : Permit) : Permit := ⟨true⟩

/-- Takes the permit if it is stored, and says whether it was. -/
def take (permit : Permit) : Bool × Permit := (permit.stored, absent)

/-- What a single thread can ask for. -/
inductive Call where
  /-- To give notice. -/
  | notify
  /-- To wait for as long as it takes. -/
  | wait
  /-- To wait for some milliseconds at most. A number that is not positive only looks. -/
  | waitFor (milliseconds : Int)
  deriving DecidableEq, Repr

/-- What a call comes back with. -/
inductive Answer where
  /-- It returned. -/
  | returned
  /-- It returned, and says whether it took a permit. -/
  | took (permit : Bool)
  deriving DecidableEq, Repr

/-- Makes a call when no other thread is there. A wait without limit comes back only if a permit is
stored, as nobody else can give notice. A wait with a limit takes the permit or runs out, however
long the limit is. -/
def call? (permit : Permit) : Call → Option (Answer × Permit)
  | .notify => some (.returned, permit.notify)
  | .wait => if permit.stored then some (.returned, permit.take.2) else none
  | .waitFor _ => some (.took permit.take.1, permit.take.2)

/-- Makes calls one after another. -/
def callAll? (permit : Permit) : List Call → Option (List Answer)
  | [] => some []
  | call :: calls => do
    let (answer, next) ← permit.call? call
    return answer :: (← next.callAll? calls)

end Permit

end MessageFeed.Shutdown
