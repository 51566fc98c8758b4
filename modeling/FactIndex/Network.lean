import FactIndex.Failure

/-!
# The network

Everything that takes time or that other programs can see: the clock, the names given to messages, and
the requests that have been sent to servers, in order.

## Main definitions

* `Effect`: a computation that works on a state and may fail. What it did before it failed stays
  done.
* `Call`: a request that was sent.
* `Network`: the clock, the names and the record of requests.
-/

namespace FactIndex

/-- A computation that works on a state and may fail. The state is kept when it fails. -/
abbrev Effect (σ α : Type) := ExceptT Failure (StateM σ) α

namespace Effect

variable {σ τ α : Type}

/-- What a computation answers, and the state after it. -/
def outcome (x : Effect σ α) (s : σ) : Except Failure α × σ := Id.run (StateT.run (ExceptT.run x) s)

/-- A computation that is given as a function of the state. -/
def make (f : σ → Except Failure α × σ) : Effect σ α := ExceptT.mk f

/-- A result that may be a failure. -/
def ofExcept : Except Failure α → Effect σ α
  | .ok a => pure a
  | .error e => throw e

/-- A computation on a part of the state. -/
def onPart (part : σ → τ) (setPart : τ → σ → σ) (x : Effect τ α) : Effect σ α :=
  make fun s =>
    let (result, t) := x.outcome (part s)
    (result, setPart t s)

/-- What comes of a computation, as a value. -/
def attempt (x : Effect σ α) : Effect σ (Except Failure α) :=
  make fun s =>
    let (result, s) := x.outcome s
    (.ok result, s)

end Effect

/-- A request that was sent. -/
structure Call where
  name : String
  arguments : Json
deriving DecidableEq

/-- The clock, the names given to messages, and the requests that have been sent. -/
structure Network where
  /-- The time, in seconds. -/
  now : Float := 1000
  /-- How many messages have been given a name. -/
  issued : Nat := 0
  /-- The requests that have been sent, the last one first. -/
  calls : List Call := []
deriving DecidableEq

namespace Network

/-- Records a request. -/
def record (n : Network) (call : Call) : Network := { n with calls := call :: n.calls }

/-- A name for a message. -/
def issue (n : Network) : String × Network :=
  ("msg-" ++ toString (n.issued + 1), { n with issued := n.issued + 1 })

/-- Lets time pass. -/
def advance (n : Network) (seconds : Float) : Network := { n with now := n.now + seconds }

end Network

end FactIndex
