/-! # Channels

An unbounded channel: messages are received in the order in which they were sent. Once it is closed
it takes no more messages and still delivers those that it holds.
-/

namespace KeyedJobs

structure Channel (α : Type) where
  /-- Messages sent and not received, the next one first. -/
  held : List α
  closed : Bool
  deriving Repr, DecidableEq

/-- What receiving from a channel finds. -/
inductive Received (α : Type) where
  | message (first : α) (rest : Channel α)
  /-- Nothing is there yet. -/
  | nothing
  /-- Nothing is there and nothing will come. -/
  | ended
  deriving Repr, DecidableEq

namespace Channel

variable {α : Type}

def empty : Channel α := ⟨[], false⟩

/-- Sends a message, unless the channel is closed. -/
def send? (c : Channel α) (message : α) : Option (Channel α) :=
  if c.closed then none else some { c with held := c.held ++ [message] }

def receive (c : Channel α) : Received α :=
  match c.held with
  | first :: rest => .message first { c with held := rest }
  | [] => if c.closed then .ended else .nothing

def close (c : Channel α) : Channel α :=
  { c with closed := true }

end Channel

end KeyedJobs
