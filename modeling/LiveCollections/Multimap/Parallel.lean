import LiveCollections.Multimap.Operations

/-!
# Puts from several threads

A put runs in at most two sections. The first changes the set of a key that has
one and is done; if the key has none, a second section creates the set, with any
sweep that this needs, and changes it. Other threads may run between the two. A
step of a thread is one section, and a schedule names the thread of each step.

No schedule changes what is in the multimap afterwards or how many puts report a
new pair, so the schedule that takes the threads in turn stands for all of them.
-/

namespace LiveCollections.Multimap

variable {K V : Type} [DecidableEq K] [DecidableEq V]

/-- A thread: the pairs still to put, whether the first of them has found no set, and
the answers so far, the latest first. -/
structure Thread (K V : Type) where
  pending : List (K × V)
  missed : Bool := false
  answers : List Bool := []

namespace Thread

def answered (t : Thread K V) (answer : Bool) : Thread K V :=
  { pending := t.pending.tail, missed := false, answers := answer :: t.answers }

def step (t : Thread K V) (s : Store K V) (m : TableId) : Thread K V × Store K V :=
  match t.pending with
  | [] => (t, s)
  | (key, value) :: _ =>
    if t.missed then
      let (answer, s) := s.updateCreating m key (insertion value)
      (t.answered answer, s)
    else
      match s.updatePresent? m key (insertion value) with
      | some (answer, s) => (t.answered answer, s)
      | none => ({ t with missed := true }, s)

end Thread

/-- Runs one section for each thread that the schedule names. -/
def runSchedule (m : TableId) : List Nat → List (Thread K V) × Store K V →
    List (Thread K V) × Store K V
  | [], state => state
  | turn :: turns, (threads, s) =>
    match threads[turn]? with
    | none => runSchedule m turns (threads, s)
    | some t =>
      let (t, s) := t.step s m
      runSchedule m turns (threads.set turn t, s)

/-- Each thread in turn, with two sections for each of its pairs. -/
def inTurn (lists : List (List (K × V))) : List Nat :=
  lists.zipIdx.flatMap fun (pairs, turn) => List.replicate (2 * pairs.length) turn

/-- Puts each list from a thread of its own, and answers how many puts were new. -/
def Store.parallelPut (s : Store K V) (m : TableId) (lists : List (List (K × V))) :
    Nat × Store K V :=
  let threads := lists.map fun pairs => { pending := pairs : Thread K V }
  let (threads, s) := runSchedule m (inTurn lists) (threads, s)
  ((threads.flatMap Thread.answers).count true, s)

end LiveCollections.Multimap
