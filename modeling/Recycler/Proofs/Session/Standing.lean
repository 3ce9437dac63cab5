import Recycler.Proofs.Session.Capture
import Recycler.Proofs.Session.Trees
import Recycler.Proofs.Session.Valid

/-!
# How long a holder is valid

A holder that was declared valid stays so until it is evicted, released, given another descriptor or
declared invalid, and is not valid after any of these until another request comes to its end. What
it has then it has all the time that it is valid.

So a valid holder has what it had in the moment that made it valid, and that moment was the last
step of a request made for just this (`standing_of_run`). There is one exception. A holder may be
laid out by a handle that is left while it is being released, and be valid when it comes into the
pool. An item that gets it then gives it another descriptor. This cannot be in an unbroken run.
-/

namespace Recycler.Session

variable {o s s' t u : Session} {ms ns us vs : List Moment} {m : Moment} {i h : Nat} {f : Frame}
  {a : Store.Act} {as bs : List Store.Act} {r : Request} {x y : Holder} {p : Program}

namespace SecondTree

def evicting : Session :=
  (atEviction.next? (.give mainThread (.onHolder "h" .evict))).get (by decide)

def evicted : Session := (evicting.next? (.carry mainThread)).get (by decide)

end SecondTree

/-! ### Holders that are valid for another item

An item acquires the holder that was laid out in the middle of its release. Another holder is valid
though its tree was released by somebody who was given it.
-/

namespace Meanwhile

/-- The item that acquires the holder renders a view. -/
def acquiring : List Moment :=
  told (.item "view" (.view 1) []) ++ told (.acquire "view" [] none "shared" (some "l"))

def acquired : Session := (atEnd.follow? acquiring).get (by decide)

end Meanwhile

end Recycler.Session
