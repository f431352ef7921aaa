import KeyedJobs.Completion.Store

/-! # Who listens to a completion

A pending completion is listened to by the positions of an aggregation that wait for it, and by the
completions that carry over its result. When its sleep ends its listeners are told in the order of
their places, and a listener that is a completion passes the word on to its own listeners at once. A
listener keeps its place as long as it listens. A place that was given up is taken before a new one
is made, and of several the one that was given up last.

Being told changes no completion; only who is told first is of interest here.
-/

namespace KeyedJobs

/-- What listens to a pending completion. -/
inductive Listener where
  /-- A position of the aggregation that is under way. -/
  | position (index : Nat)
  /-- A completion that carries over the result. -/
  | completion (id : CompletionId)
  deriving Repr, DecidableEq

/-- The listeners of one completion. -/
structure Listeners where
  /-- What each place holds, if it is taken. -/
  places : List (Option Listener)
  /-- The places that were given up, the last one first. -/
  vacant : List Nat
  deriving Repr, DecidableEq

namespace Listeners

def empty : Listeners := ⟨[], []⟩

def listens (l : Listeners) (listener : Listener) : Bool :=
  some listener ∈ l.places

/-- Gives a place to a listener that has none. -/
def add (l : Listeners) (listener : Listener) : Listeners :=
  if l.listens listener then l
  else match l.vacant with
    | place :: vacant => ⟨l.places.set place (some listener), vacant⟩
    | [] => ⟨l.places ++ [some listener], []⟩

/-- The listener gives up its place, if it has one. -/
def remove (l : Listeners) (listener : Listener) : Listeners :=
  match l.places.findIdx? (· = some listener) with
  | some place => ⟨l.places.set place none, place :: l.vacant⟩
  | none => l

theorem add_of_listens {l : Listeners} {listener : Listener} (h : l.listens listener = true) :
    l.add listener = l := by
  simp [add, h]

theorem listens_add_of_vacant_eq_nil {l : Listeners} (h : l.vacant = []) (listener : Listener) :
    (l.add listener).listens listener = true := by
  by_cases present : l.listens listener = true
  · rw [add_of_listens present, present]
  · rw [add, if_neg present, h]
    simp [listens]

end Listeners

/-- The listeners of all completions. -/
structure Audience where
  lists : List (CompletionId × Listeners)
  deriving Repr, DecidableEq

namespace Audience

def empty : Audience := ⟨[]⟩

/-- The listeners of one completion; at first there are none. -/
def of (a : Audience) (id : CompletionId) : Listeners :=
  (a.lists.lookup id).getD .empty

def update (a : Audience) (id : CompletionId) (change : Listeners → Listeners) : Audience :=
  ⟨(id, change (a.of id)) :: a.lists.filter (·.1 ≠ id)⟩

/-- A completion that was polled and still waits for its source listens to it, and so on down to a
completion that is not chained. -/
def link (a : Audience) (cs : Completions) (id : CompletionId) : Audience :=
  match cs.entries[id]? with
  | some (.chained source) =>
      if source < id then link (a.update source (·.add (.completion id))) cs source else a
  | _ => a
termination_by id

/-- A position has polled the completion that it waits for. -/
def attend (a : Audience) (cs : Completions) (index : Nat) (id : CompletionId) : Audience :=
  (a.update id (·.add (.position index))).link cs id

/-- A position does not wait for the completion any more. -/
def leave (a : Audience) (index : Nat) (id : CompletionId) : Audience :=
  a.update id (·.remove (.position index))

/-- The position that is told first when the sleep of a completion ends. Listening completions are
younger than what they listen to, and `count` is the number of all completions. -/
def firstTold? (a : Audience) (count : Nat) (id : CompletionId) : Option Nat :=
  (a.of id).places.findSome? fun
    | some (.position index) => some index
    | some (.completion heir) =>
        if _younger : id < heir ∧ heir < count then firstTold? a count heir else none
    | none => none
termination_by count - id
decreasing_by exact Nat.sub_lt_sub_left (Nat.lt_trans _younger.1 _younger.2) _younger.1

/-- A completion does not listen to its source any more. -/
def release (a : Audience) (id source : CompletionId) : Audience :=
  if (a.of source).listens (.completion id) then a.update source (·.remove (.completion id)) else a

/-- Of the first `count` completions, those that are not marked as kept do not listen any more. The
source of a kept one is kept, and it is older. -/
def sweep (a : Audience) (cs : Completions) : (count : Nat) → (kept : Array Bool) → Audience
  | 0, _ => a
  | id + 1, kept =>
      match cs.entries[id]? with
      | some (.chained source) =>
          if kept.getD id false then a.sweep cs id (kept.setIfInBounds source true)
          else (a.release id source).sweep cs id kept
      | _ => a.sweep cs id kept

/-- Completions that nobody holds do not listen any more. Held are the given ones and those whose
results they carry over. -/
def keepOnly (a : Audience) (cs : Completions) (held : List CompletionId) : Audience :=
  let count := cs.entries.size
  let marks := held.foldl (·.setIfInBounds · true) (Array.replicate count false)
  a.sweep cs count marks

end Audience

end KeyedJobs
