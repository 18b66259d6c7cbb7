import Chip8.Key

/-!
# Pending keys

Key presses wait in a queue, oldest first, until an instruction takes them.  At
the end of a run the queue is closed: whoever waits for a key then gives up,
and keys that are still queued stay there.

Each operation here is one uninterrupted action on the queue.  Waiting is
therefore a question with three answers (`KeyQueue.Wait`): a key, the news that
the queue is closed, or neither yet, and then the waiter asks again later.
-/

set_option autoImplicit false

namespace Chip8

/-- The pending key presses. -/
structure KeyQueue where
  /-- The keys nobody has taken yet, oldest first. -/
  keys : List Key
  /-- Whether waiting is over for good. -/
  closed : Bool
  deriving DecidableEq, Repr

namespace KeyQueue

/-- No keys yet, and open. -/
def empty : KeyQueue := ⟨[], false⟩

instance : Inhabited KeyQueue := ⟨empty⟩

/-- Adds a key press behind all others. -/
def push (q : KeyQueue) (k : Key) : KeyQueue :=
  { q with keys := q.keys ++ [k] }

/-- Adds key presses behind all others, in their order. -/
def pushAll (q : KeyQueue) (ks : List Key) : KeyQueue :=
  { q with keys := q.keys ++ ks }

/-- The oldest key, left where it is. -/
def front? (q : KeyQueue) : Option Key :=
  q.keys.head?

/-- Takes the oldest key, if there is one. -/
def pop (q : KeyQueue) : Option Key × KeyQueue :=
  match q.keys with
  | [] => (none, q)
  | k :: ks => (some k, { q with keys := ks })

/-- Takes the oldest key if its code is the byte `b`, and says whether it was. -/
def popIf (q : KeyQueue) (b : UInt8) : Bool × KeyQueue :=
  match q.keys with
  | [] => (false, q)
  | k :: ks => if k.code = b then (true, { q with keys := ks }) else (false, q)

/-- Ends all waiting, now and later. -/
def close (q : KeyQueue) : KeyQueue :=
  { q with closed := true }

/-- What someone who waits for a key learns when they look. -/
inductive Wait where
  /-- This key was the oldest, and is now theirs. -/
  | key (k : Key)
  /-- The queue is closed. -/
  | closed
  /-- No key is pending, and the queue is open. -/
  | pending
  deriving DecidableEq, Repr

/-- Looks for a key on behalf of someone who waits for one. -/
def waitPop (q : KeyQueue) : Wait × KeyQueue :=
  if q.closed then
    (.closed, q)
  else
    match q.keys with
    | [] => (.pending, q)
    | k :: ks => (.key k, { q with keys := ks })

/-- Adding nothing changes nothing. -/
theorem pushAll_nil (q : KeyQueue) : q.pushAll [] = q := by
  simp [pushAll]

/-- Adding several keys adds the last of them last. -/
theorem pushAll_concat (q : KeyQueue) (ks : List Key) (k : Key) :
    q.pushAll (ks ++ [k]) = (q.pushAll ks).push k := by
  simp [pushAll, push]

/-- A waiter is kept waiting if and only if the queue is open and empty. -/
theorem waitPop_pending (q : KeyQueue) :
    (q.waitPop).1 = .pending ↔ q.closed = false ∧ q.keys = [] := by
  unfold waitPop
  cases q.closed <;> cases q.keys <;> simp

/-- A closed queue gives nothing away and keeps its keys. -/
theorem waitPop_of_closed {q : KeyQueue} (h : q.closed = true) : q.waitPop = (.closed, q) := by
  simp [waitPop, h]

end KeyQueue

end Chip8
