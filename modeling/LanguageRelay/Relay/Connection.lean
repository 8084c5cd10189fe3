import LanguageRelay.Message.Event
namespace LanguageRelay

structure Connection where
  capacity : Nat
  queue : List ClientEvent
  receiving : Bool
  evicted : Bool
deriving DecidableEq, Repr, Inhabited

inductive Delivery where
  | queued
  | full
  | closed
deriving DecidableEq, Repr

namespace Connection

-- No queue can have more room than this. Whoever asks for more breaks down.
def greatestCapacity : Nat := 0x1FFFFFFFFFFFFFFF

def new (capacity : Nat) : Connection := ⟨max capacity 1, [], true, false⟩

def new? (capacity : Nat) : Option Connection :=
  if capacity ≤ greatestCapacity then some (new capacity) else none

def deliver (c : Connection) (event : ClientEvent) : Delivery × Connection :=
  if !c.receiving then (.closed, c)
  else if c.capacity ≤ c.queue.length then (.full, c)
  else (.queued, { c with queue := c.queue ++ [event] })

def receive? (c : Connection) : Option (ClientEvent × Connection) :=
  match c.queue with
  | [] => none
  | event :: rest => some (event, { c with queue := rest })

def hangUp (c : Connection) : Connection := { c with receiving := false, queue := [] }

def evict (c : Connection) : Connection := { c with evicted := true }

theorem evicted_deliver (c : Connection) (event : ClientEvent) :
    (c.deliver event).2.evicted = c.evicted := by
  unfold deliver
  split
  · rfl
  · split <;> rfl

theorem queue_deliver (c : Connection) (event : ClientEvent) :
    (c.deliver event).2.queue =
      if (c.deliver event).1 = .queued then c.queue ++ [event] else c.queue := by
  unfold deliver
  split
  · rfl
  · split <;> rfl

end Connection
end LanguageRelay
