/-!
# `block_on`

Model of `block_on` (`ppnt-io/src/runtime.ixx`), of `Ring::set_ring` and `Ring::current`
(`ppnt-io/src/driver.cpp`) and of how a root task ends (`ppnt-io/src/task.ixx`), on one thread.

What runs on the thread until a root task is done, in `handle.resume()` and in the calls of
`run_one`, is a list of acts.  They are those of the root and of all coroutines that are resumed
meanwhile, and `block_on` itself may be among them.  Rings and coroutine frames get numbers in the
order in which they are made.
-/

namespace Ppnt.Native

abbrev RingId := Nat

abbrev FrameId := Nat

/-- How a coroutine ends: in `return_value` or in `unhandled_exception`. -/
inductive Completion where
  | value
  | exception
deriving DecidableEq, Repr

/-- Why a thread does not go on: `std::terminate`, or a use of a ring that has been destroyed. -/
inductive Stop where
  | terminate
  | danglingRing
deriving DecidableEq, Repr

/-- A thread, with the rings and the coroutine frames that exist. -/
structure Thread where
  currentRing : Option RingId := none
  ringCount : Nat := 0
  rings : List RingId := []
  frameCount : Nat := 0
  frames : List FrameId := []
  frames_lt : ∀ frame ∈ frames, frame < frameCount := by decide

namespace Thread

/-- `Ring::set_ring`. -/
def setRing (t : Thread) (ring : Option RingId) : Thread := { t with currentRing := ring }

/-- `Ring::current`. -/
def current (t : Thread) : Except Stop RingId :=
  match t.currentRing with
  | none => .error .terminate
  | some ring => if ring ∈ t.rings then .ok ring else .error .danglingRing

def makeRing (t : Thread) : RingId × Thread :=
  (t.ringCount, { t with ringCount := t.ringCount + 1, rings := t.ringCount :: t.rings })

/-- `~Ring` does not look at `current_ring`. -/
def destroyRing (t : Thread) (ring : RingId) : Thread :=
  { t with rings := t.rings.filter (· ≠ ring) }

def makeFrame (t : Thread) : FrameId × Thread :=
  (t.frameCount, { t with
    frameCount := t.frameCount + 1
    frames := t.frameCount :: t.frames
    frames_lt := by
      intro frame hframe
      rcases List.mem_cons.mp hframe with rfl | hold
      · exact Nat.lt_succ_self _
      · exact Nat.lt_succ_of_lt (t.frames_lt frame hold) })

/-- `handle.destroy()`. -/
def destroyFrame (t : Thread) (frame : FrameId) : Thread :=
  { t with
    frames := t.frames.filter (· ≠ frame)
    frames_lt := fun f hf => t.frames_lt f (List.mem_filter.mp hf).1 }

end Thread

/-- What code on the thread does, as far as rings are concerned: an operation takes
    `Ring::current()`, or `block_on` is called for a root task, given by its acts and its end, in a
    place where exceptions are caught or not. -/
inductive Act where
  | current
  | blockOn (root : List Act) (completion : Completion) (caught : Bool)

def Act.caught : Act → Bool
  | .current => true
  | .blockOn _ _ caught => caught

mutual

def Act.run : Act → Thread → Except Stop (Completion × Thread)
  | .current, t =>
    match t.current with
    | .error stop => .error stop
    | .ok _ => .ok (.value, t)
  | .blockOn root completion _, t =>
    let (frame, t) := t.makeFrame
    let (ring, t) := t.makeRing
    match Act.runAll root completion (t.setRing (some ring)) with
    | .error stop => .error stop
    | .ok (.value, t) => .ok (.value, ((t.destroyFrame frame).setRing none).destroyRing ring)
    -- `get_value` throws, and the exception leaves the scope of `ring`
    | .ok (.exception, t) => .ok (.exception, t.destroyRing ring)

/-- The acts until the root task is done.  An exception that is not caught ends the root. -/
def Act.runAll : List Act → Completion → Thread → Except Stop (Completion × Thread)
  | [], completion, t => .ok (completion, t)
  | act :: acts, completion, t =>
    match Act.run act t with
    | .error stop => .error stop
    | .ok (.value, t) => Act.runAll acts completion t
    | .ok (.exception, t) =>
      if act.caught then Act.runAll acts completion t else .ok (.exception, t)

end

/-- `block_on(fn())`: how the call ends, and the thread behind it. -/
def blockOn (root : List Act) (completion : Completion) (t : Thread) :
    Except Stop (Completion × Thread) :=
  Act.run (.blockOn root completion true) t

end Ppnt.Native
