import Artwork.Import.Job

/-!
**An import in the background is an import.**

The worker of a job sees of all that happens only its flag, once before each line.  So whatever the
order of events is, unless the worker breaks down the job comes to what an import comes to whose
caller gives the same answers: before the flag is raised to go on, and from then on to stop.  Who
never raises the flag gets the answer that it held from the start.

Main definitions:

* `JobEvent.answers` — the answers that a worker sees.

Main results:

* `followLines_add` — following lines depends on the answers from the first question on;
* `ImportJob.join_run_of_running` — a worker between two lines, whatever happens to its job;
* `ImportJob.join_run_spawn` — **a job is an import with the answers of its flag**.
-/

set_option relaxedAutoImplicit false
set_option autoImplicit false

namespace Artwork

/-- Questions that were asked before shift the answers. -/
theorem followLines_add {union : ContourUnion Float} (abort : AbortSignal) (asked before : Nat)
    (c : Context) (ls : List (List Char)) :
    (followLines union abort (asked + before) c ls).1 =
      (followLines union (fun n => abort (n + before)) asked c ls).1 := by
  induction ls generalizing asked c with
  | nil => rfl
  | cons line ls ih =>
      rw [followLines, followLines]
      cases abort (asked + before) with
      | true => rfl
      | false =>
          rw [if_neg Bool.false_ne_true, if_neg Bool.false_ne_true, Nat.add_right_comm]
          exact ih (asked + 1) (c.applyLine union line)

/-- The answers that the worker sees if its flag is `flag` and then these events happen.  After the
last event the flag stays as it is. -/
def JobEvent.answers (flag : Bool) : List JobEvent → AbortSignal
  | [], _ => flag
  | cancel :: events, n => answers true events n
  | work :: _, 0 => flag
  | work :: events, n + 1 => answers flag events n
  | panic :: events, n => answers flag events n

/-- Where the flag is not raised, every answer is the one that it held. -/
theorem JobEvent.answers_of_not_mem {events : List JobEvent} (h : cancel ∉ events) (flag : Bool) :
    answers flag events = fun _ => flag := by
  induction events with
  | nil => rfl
  | cons event events ih =>
      obtain ⟨hne, hrest⟩ := not_or.1 (mt List.mem_cons.2 h)
      funext n
      cases event with
      | cancel => exact absurd rfl hne
      | panic => exact congrFun (ih hrest) n
      | work =>
          cases n with
          | zero => rfl
          | succ n => exact congrFun (ih hrest) n

namespace ImportJob

variable {union : ContourUnion Float}

/-- Nothing happens to a worker that has ended. -/
theorem join_run_of_ended (flag : Bool) (outcome : Except ImportError Layout)
    (events : List JobEvent) :
    (run union ⟨flag, .ended outcome⟩ events).join union = outcome := by
  induction events generalizing flag with
  | nil => rfl
  | cons event events ih =>
      cases event with
      | cancel => exact ih true
      | work => exact ih flag
      | panic => exact ih flag

/-- A worker between two lines comes to what following the lines that are left comes to, with the
answers that it sees. -/
theorem join_run_of_running {events : List JobEvent} (h : .panic ∉ events) (flag : Bool)
    (c : Context) (rest : List (List Char)) :
    (run union ⟨flag, .running c rest⟩ events).join union =
      (followLines union (JobEvent.answers flag events) 0 c rest).1.map Context.finish := by
  induction events generalizing flag c rest with
  | nil => rfl
  | cons event events ih =>
      obtain ⟨hne, hevents⟩ := not_or.1 (mt List.mem_cons.2 h)
      cases event with
      | panic => exact absurd rfl hne
      | cancel => exact ih hevents true c rest
      | work =>
          cases rest with
          | nil => exact join_run_of_ended flag _ events
          | cons line rest =>
              -- the worker asks, and what it asks later are the answers after this one
              have hshift : (followLines union (JobEvent.answers flag (.work :: events)) 1
                    (c.applyLine union line) rest).1 =
                  (followLines union (JobEvent.answers flag events) 0 (c.applyLine union line)
                    rest).1 :=
                followLines_add _ 0 1 _ rest
              rw [followLines]
              cases flag with
              | true => exact join_run_of_ended true _ events
              | false =>
                  refine (ih hevents false (c.applyLine union line) rest).trans ?_
                  exact congrArg (Except.map Context.finish) hshift.symm

/-- **A job is an import** whose caller gives the answers of the flag, unless its worker breaks
down. -/
theorem join_run_spawn {events : List JobEvent} (h : .panic ∉ events) (options : ImportOptions)
    (text : List Char) (flag : Bool) :
    ∃ job, spawn (.ok ()) options text flag = .ok job ∧
      (job.run union events).join union =
        (importWith union options (JobEvent.answers flag events) text).1 := by
  refine ⟨_, rfl, ?_⟩
  unfold Worker.start importWith
  cases Context.start options with
  | error e => exact join_run_of_ended flag _ events
  | ok c => exact join_run_of_running h flag c (lines text)

end ImportJob

end Artwork
