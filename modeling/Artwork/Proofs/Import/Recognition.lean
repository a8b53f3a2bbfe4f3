import Artwork.Proofs.Import.Nesting

/-!
**Only the recognised operators matter.**

A text is followed by the operators of its lines.  How a line ends, and how many empty lines stand
between two others, is not seen at all: the caller is asked the same number of times, and the layout
is the same.  A line that is no operator costs a question, and the layout is still the same.

Main results:

* `importWith_of_lines_eq` — texts with the **same lines**;
* `importWith_of_follow_eq`, `importWith_of_operators_eq` — texts that lead to the same state, and
  texts with the **same operators**;
* `import_recognition` — line breaks, and lines that are no operators.
-/

set_option relaxedAutoImplicit false
set_option autoImplicit false

namespace Artwork

variable {union : ContourUnion Float} {options : ImportOptions}

/-- Texts with the same lines cannot be told apart, **whatever the caller answers**. -/
theorem importWith_of_lines_eq {a b : List Char} (h : lines a = lines b) (abort : AbortSignal) :
    importWith union options abort a = importWith union options abort b := by
  unfold importWith
  rw [h]

/-- Texts whose operators **lead to the same state** give the same layout, or fail for the same
reason. -/
theorem importWith_of_follow_eq {a b : List Char}
    (h : (Context.initial options).follow union ((lines a).filterMap classify) =
      (Context.initial options).follow union ((lines b).filterMap classify)) :
    (importWith union options (fun _ => false) a).1 =
      (importWith union options (fun _ => false) b).1 := by
  by_cases hsteps : options.curveSteps = 0
  · rw [importWith_of_curveSteps_eq_zero union hsteps,
      importWith_of_curveSteps_eq_zero union hsteps]
  · rw [importWith_never union hsteps, importWith_never union hsteps, ImportRun.layout,
      ImportRun.layout, Context.after_eq_follow, Context.after_eq_follow, h]

/-- Texts with the same operators give **the same layout**, or fail for the same reason. -/
theorem importWith_of_operators_eq {a b : List Char}
    (h : (lines a).filterMap classify = (lines b).filterMap classify) :
    (importWith union options (fun _ => false) a).1 =
      (importWith union options (fun _ => false) b).1 :=
  importWith_of_follow_eq (congrArg _ h)

/-- A piece of a text that is no operator gives no operator. -/
theorem filterMap_classify_lines {line : List Char} (hline : ∀ a ∈ line, isLineBreak a = false)
    (hnone : classify line = none) : (lines line).filterMap classify = [] := by
  cases line with
  | nil => rfl
  | cons a line =>
      have hone : lines (a :: line) = [a :: line] := runs_of_run (List.cons_ne_nil a line) hline
      rw [hone, List.filterMap_cons_none hnone, List.filterMap_nil]

/-- **Only the recognised operators matter.**  A line break may be replaced by any number of them,
and there may be more of them in front of the text and behind it: neither the layout is another nor
the number of questions.  A line that is no operator may be inserted between two lines, before the
first or after the last: the layout is the same. -/
theorem import_recognition (union : ContourUnion Float) (options : ImportOptions) :
    (∀ (abort : AbortSignal) (as breaks bs : List Char) (c : Char), isLineBreak c = true →
        breaks ≠ [] → (∀ b ∈ breaks, isLineBreak b = true) →
        importWith union options abort (as ++ (breaks ++ bs)) =
          importWith union options abort (as ++ c :: bs)) ∧
      (∀ (abort : AbortSignal) (text breaks : List Char), (∀ b ∈ breaks, isLineBreak b = true) →
        importWith union options abort (breaks ++ text) = importWith union options abort text ∧
        importWith union options abort (text ++ breaks) = importWith union options abort text) ∧
      ∀ line : List Char, (∀ a ∈ line, isLineBreak a = false) → classify line = none →
        ∀ (as bs : List Char) (c d : Char), isLineBreak c = true → isLineBreak d = true →
          (importWith union options (fun _ => false) (as ++ c :: (line ++ d :: bs))).1 =
              (importWith union options (fun _ => false) (as ++ c :: bs)).1 ∧
            (importWith union options (fun _ => false) (line ++ d :: bs)).1 =
              (importWith union options (fun _ => false) bs).1 ∧
            (importWith union options (fun _ => false) (as ++ c :: line)).1 =
              (importWith union options (fun _ => false) as).1 := by
  refine ⟨fun abort as breaks bs c hc hne hbreaks => ?_, fun abort text breaks hbreaks => ⟨?_, ?_⟩,
    fun line hline hnone as bs c d hc hd => ?_⟩
  · refine importWith_of_lines_eq ?_ abort
    rw [lines, lines, runs_append_gap_append hne hbreaks, runs_append_cons hc]
  · exact importWith_of_lines_eq (runs_gap_append hbreaks text) abort
  · exact importWith_of_lines_eq (runs_append_gap hbreaks text) abort
  · have hcut : ∀ (as bs : List Char) {c : Char}, isLineBreak c = true →
        lines (as ++ c :: bs) = lines as ++ lines bs := fun as bs c hc => runs_append_cons hc as bs
    have hlost := filterMap_classify_lines hline hnone
    refine ⟨importWith_of_operators_eq ?_, importWith_of_operators_eq ?_,
      importWith_of_operators_eq ?_⟩
    · rw [hcut as _ hc, hcut line bs hd, hcut as bs hc, List.filterMap_append, List.filterMap_append,
        hlost, List.nil_append, List.filterMap_append]
    · rw [hcut line bs hd, List.filterMap_append, hlost, List.nil_append]
    · rw [hcut as line hc, List.filterMap_append, hlost, List.append_nil]

/-- A rectangle is filled after **a line of text**, with line breaks of all kinds. -/
theorem import_recognition_markedRectangle :
    isLineBreak '\n' = true ∧ (∀ b ∈ ['\r', '\n'], isLineBreak b = true) ∧
      (∀ a ∈ ['B', 'T'], isLineBreak a = false) ∧ classify ['B', 'T'] = none ∧
      (∀ abort, importWith separateShapes {} abort ("0 0 9 9 re".toList ++ (['\r', '\n'] ++ ['f'])) =
        importWith separateShapes {} abort ("0 0 9 9 re".toList ++ '\n' :: ['f'])) ∧
      (∀ abort, importWith separateShapes {} abort (['\r', '\n'] ++ ['f']) =
        importWith separateShapes {} abort ['f']) ∧
      (importWith separateShapes {} (fun _ => false)
          ("0 0 9 9 re".toList ++ '\n' :: (['B', 'T'] ++ '\n' :: ['f']))).1 =
        (importWith separateShapes {} (fun _ => false) ("0 0 9 9 re".toList ++ '\n' :: ['f'])).1 := by
  obtain ⟨hreplaced, hadded, hinserted⟩ := import_recognition separateShapes {}
  have hbreak : isLineBreak '\n' = true := by decide
  have hbreaks : ∀ b ∈ ['\r', '\n'], isLineBreak b = true := by simp [isLineBreak]
  have hline : ∀ a ∈ ['B', 'T'], isLineBreak a = false := by simp [isLineBreak]
  have hnone : classify ['B', 'T'] = none := by decide +kernel
  refine ⟨hbreak, hbreaks, hline, hnone, fun abort => ?_, fun abort => ?_, ?_⟩
  · exact hreplaced abort _ _ _ '\n' hbreak (List.cons_ne_nil _ _) hbreaks
  · exact (hadded abort ['f'] _ hbreaks).1
  · exact (hinserted _ hline hnone _ ['f'] '\n' '\n' hbreak hbreak).1

end Artwork
