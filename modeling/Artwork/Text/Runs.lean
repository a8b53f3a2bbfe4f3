/-!
**Maximal runs between separators.**

A text is cut into lines, and a line into words, in the same way: at every separator, and empty pieces
are dropped.  So the pieces are the maximal runs without a separator, and several separators in a row
count as one.

Main definitions:

* `splitFirst` — the run a list begins with, which may be empty, and the runs after it;
* `runs` — **the maximal runs without a separator**.

Main results:

* `runs_separator`, `runs_append_separator` — separators at the beginning and at the end do not
  count;
* `runs_append_cons` — a separator cuts a list in two.
-/

set_option relaxedAutoImplicit false
set_option autoImplicit false

namespace Artwork

variable {α : Type}

/-- A run in front of others, unless it is empty. -/
def consRun (run : List α) (rest : List (List α)) : List (List α) :=
  if run.isEmpty then rest else run :: rest

/-- Puts one member in front of the run a list begins with; a separator ends that run. -/
def extendRun (separates : α → Bool) (a : α) (split : List α × List (List α)) :
    List α × List (List α) :=
  if separates a then ([], consRun split.1 split.2) else (a :: split.1, split.2)

/-- The run a list begins with, which may be empty, and the runs after it. -/
def splitFirst (separates : α → Bool) (as : List α) : List α × List (List α) :=
  as.foldr (extendRun separates) ([], [])

/-- The **maximal runs** of members that are not separators, in order. -/
def runs (separates : α → Bool) (as : List α) : List (List α) :=
  consRun (splitFirst separates as).1 (splitFirst separates as).2

@[simp] theorem runs_nil (separates : α → Bool) : runs separates [] = [] := rfl

theorem splitFirst_cons (separates : α → Bool) (a : α) (as : List α) :
    splitFirst separates (a :: as) = extendRun separates a (splitFirst separates as) := rfl

/-- A separator in front does not count. -/
theorem runs_separator {separates : α → Bool} {a : α} (h : separates a = true) (as : List α) :
    runs separates (a :: as) = runs separates as := by
  simp [runs, splitFirst_cons, extendRun, h, consRun]

/-- A separator **cuts a list in two**. -/
theorem runs_append_cons {separates : α → Bool} {a : α} (h : separates a = true)
    (as bs : List α) : runs separates (as ++ a :: bs) = runs separates as ++ runs separates bs := by
  suffices key : splitFirst separates (as ++ a :: bs)
      = ((splitFirst separates as).1, (splitFirst separates as).2 ++ runs separates bs) by
    simp only [runs, key, consRun]
    split <;> simp
  induction as with
  | nil => simp [splitFirst, extendRun, h, runs]
  | cons c cs ih =>
    simp only [List.cons_append, splitFirst_cons, ih, extendRun]
    split
    · simp only [consRun]
      split <;> simp
    · rfl

/-- A separator at the end does not count. -/
theorem runs_append_separator {separates : α → Bool} {a : α} (h : separates a = true)
    (as : List α) : runs separates (as ++ [a]) = runs separates as := by
  simp [runs_append_cons h]

end Artwork
