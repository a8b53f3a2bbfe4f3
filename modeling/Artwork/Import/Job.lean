import Artwork.Import.Stream

/-!
**Imports in the background.**

A worker follows the lines of a text and looks at a flag before each of them.  Whoever holds the job
can raise the flag at any time, and in the end waits for what the worker comes to.  In between the
worker takes its steps, and it may break down.

Main definitions:

* `Worker` — how far the worker has got;
* `ImportJob` — the flag and the worker;
* `ImportJob.spawn`, `ImportJob.cancel`, `ImportJob.join` — what the holder of a job does;
* `JobEvent`, `ImportJob.step`, `ImportJob.run` — what happens in between.
-/

set_option relaxedAutoImplicit false
set_option autoImplicit false

namespace Artwork

/-- How far the worker of an import has got. -/
inductive Worker where
  /-- It is between two lines, with the state of the import and the lines that are left. -/
  | running (c : Context) (rest : List (List Char))
  /-- It has ended. -/
  | ended (outcome : Except ImportError Layout)
  /-- It has broken down. -/
  | panicked

namespace Worker

/-- The worker at its beginning.  Options that cannot be used end it at once. -/
def start (options : ImportOptions) (text : List Char) : Worker :=
  match Context.start options with
  | .error e => ended (.error e)
  | .ok c => running c (lines text)

/-- One step of the worker: it looks at the flag and follows the next line.  Without a line it
ends. -/
def work (union : ContourUnion Float) (flag : Bool) : Worker → Worker
  | running c [] => ended (.ok c.finish)
  | running c (line :: rest) =>
    if flag then ended (.error .cancelled) else running (c.applyLine union line) rest
  | worker => worker

/-- A worker that has not ended breaks down. -/
def fail : Worker → Worker
  | running .. => panicked
  | worker => worker

/-- What the worker comes to if the flag stays as it is. -/
def outcome (union : ContourUnion Float) (flag : Bool) : Worker → Except ImportError Layout
  | running c rest => (followLines union (fun _ => flag) 0 c rest).1.map Context.finish
  | ended outcome => outcome
  | panicked => .error .workerPanicked

end Worker

/-- An import in the background: the flag that asks it to stop, and its worker. -/
structure ImportJob where
  flag : Bool
  worker : Worker

/-- What happens to a job. -/
inductive JobEvent where
  /-- The flag is raised. -/
  | cancel
  /-- The worker takes a step. -/
  | work
  /-- The worker breaks down, unless it has ended. -/
  | panic
  deriving Repr, DecidableEq

namespace ImportJob

/-- Starts an import with a flag that may have been raised before; `thread` is what the system
answers when it is asked for a thread. -/
def spawn (thread : Except String Unit) (options : ImportOptions) (text : List Char) (flag : Bool) :
    Except ImportError ImportJob :=
  match thread with
  | .error reason => .error (.system reason)
  | .ok () => .ok ⟨flag, .start options text⟩

/-- Raises the flag. -/
def cancel (job : ImportJob) : ImportJob :=
  { job with flag := true }

/-- The job after one event. -/
def step (union : ContourUnion Float) (job : ImportJob) : JobEvent → ImportJob
  | .cancel => job.cancel
  | .work => { job with worker := job.worker.work union job.flag }
  | .panic => { job with worker := job.worker.fail }

/-- The job after events. -/
def run (union : ContourUnion Float) (job : ImportJob) (events : List JobEvent) : ImportJob :=
  events.foldl (step union) job

/-- Waits for the worker.  Nobody raises the flag any more. -/
def join (union : ContourUnion Float) (job : ImportJob) : Except ImportError Layout :=
  job.worker.outcome union job.flag

end ImportJob

end Artwork
