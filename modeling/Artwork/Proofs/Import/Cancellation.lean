import Artwork.Proofs.Import.Background
import Artwork.Proofs.Import.Layering
import Artwork.Proofs.Text.Pieces

/-!
**Stopping an import.**

The caller is asked once before each line that is not empty, and the first answer to stop ends it
all without a layout.  An import that is not stopped before its last line is one that nobody wanted
to stop: it gives the same layout.

Main definitions:

* `lineCount` — **how often the caller can be asked**: the pieces between line breaks that are not
  empty.

Main results:

* `importWith_of_first` — the first answer to stop, and how many were asked for until then;
* `importWith_of_forall` — an import that is not stopped;
* `eq_layout_of_importWith_eq_ok` — a layout does not depend on the answers;
* `importWith_of_after_eq` — texts that no answers can tell apart;
* `import_cancellation` — **all that an answer can do**.
-/

set_option relaxedAutoImplicit false
set_option autoImplicit false

namespace Artwork

/-- How many pieces of the text between line breaks are **not empty**. -/
def lineCount (text : List Char) : Nat :=
  ((text.splitOnP isLineBreak).filter (!·.isEmpty)).length

theorem length_lines (text : List Char) : (lines text).length = lineCount text := by
  rw [lines, runs_eq_filter_splitOnP, lineCount]

theorem lineCount_pos_iff (text : List Char) :
    0 < lineCount text ↔ ∃ piece ∈ text.splitOnP isLineBreak, piece ≠ [] := by
  rw [lineCount, List.length_filter_pos_iff]
  simp

variable {union : ContourUnion Float} {abort : AbortSignal}

/-! ### Lines -/

/-- If every answer is to go on, all lines are followed, and the caller is asked once for
each. -/
theorem followLines_of_forall {asked : Nat} {c : Context} {ls : List (List Char)}
    (h : ∀ j < ls.length, abort (asked + j) = false) :
    followLines union abort asked c ls = (.ok (c.after union ls), asked + ls.length) := by
  induction ls generalizing asked c with
  | nil => rfl
  | cons line ls ih =>
      have hfirst : abort asked = false := h 0 (Nat.zero_lt_succ _)
      have hrest : ∀ j < ls.length, abort (asked + 1 + j) = false := by
        intro j hj
        rw [Nat.add_assoc, Nat.add_comm 1 j]
        exact h (j + 1) (Nat.succ_lt_succ hj)
      rw [followLines, hfirst, if_neg Bool.false_ne_true, ih hrest, List.length_cons,
        Nat.add_assoc, Nat.add_comm 1]
      rfl

/-- The first answer to stop is the last one asked for, and there is no state. -/
theorem followLines_of_first {asked k : Nat} {c : Context} {ls : List (List Char)}
    (hk : k < ls.length) (hbefore : ∀ j < k, abort (asked + j) = false)
    (hstop : abort (asked + k) = true) :
    followLines union abort asked c ls = (.error .cancelled, asked + k + 1) := by
  induction ls generalizing asked k c with
  | nil => cases hk
  | cons line ls ih =>
      rw [followLines]
      cases k with
      | zero => rw [if_pos (show abort asked = true from hstop), Nat.add_zero]
      | succ k =>
          have hfirst : abort asked = false := hbefore 0 (Nat.zero_lt_succ _)
          have hnext : ∀ j, asked + (j + 1) = asked + 1 + j := by omega
          rw [hnext k] at hstop
          rw [hfirst, if_neg Bool.false_ne_true, hnext k]
          refine ih (Nat.lt_of_succ_lt_succ hk) (fun j hj => ?_) hstop
          rw [← hnext j]
          exact hbefore (j + 1) (Nat.succ_lt_succ hj)

/-! ### Imports -/

variable {options : ImportOptions} {text : List Char}

/-- An import that **is not stopped** gives the layout of its run, and asks once for each line. -/
theorem importWith_of_forall (hsteps : options.curveSteps ≠ 0)
    (h : ∀ j < lineCount text, abort j = false) :
    importWith union options abort text =
      (.ok (ImportRun.layout ⟨union, options, lines text⟩), lineCount text) := by
  rw [← length_lines] at h ⊢
  have hall : ∀ j < (lines text).length, abort (0 + j) = false := by simpa using h
  rw [importWith, Context.start, if_neg hsteps]
  dsimp only
  rw [followLines_of_forall hall, Nat.zero_add]
  rfl

/-- The first answer to stop leaves **no layout**, and no other is asked for. -/
theorem importWith_of_first (hsteps : options.curveSteps ≠ 0) {k : Nat} (hk : k < lineCount text)
    (hbefore : ∀ j < k, abort j = false) (hstop : abort k = true) :
    importWith union options abort text = (.error .cancelled, k + 1) := by
  rw [← length_lines] at hk
  have hbefore' : ∀ j < k, abort (0 + j) = false := by simpa using hbefore
  have hstop' : abort (0 + k) = true := by simpa using hstop
  rw [importWith, Context.start, if_neg hsteps]
  dsimp only
  rw [followLines_of_first hk hbefore' hstop', Nat.zero_add]
  rfl

/-- Among the first `n` answers there is a first one to stop, or all of them are to go on. -/
theorem AbortSignal.exists_first_or_forall (abort : AbortSignal) (n : Nat) :
    (∃ k < n, (∀ j < k, abort j = false) ∧ abort k = true) ∨ ∀ j < n, abort j = false := by
  by_cases hstop : ∃ k < n, abort k = true
  · classical
    obtain ⟨hk, hstops⟩ := Nat.find_spec hstop
    refine Or.inl ⟨Nat.find hstop, hk, fun j hj => ?_, hstops⟩
    have hgoes := Nat.find_min hstop hj
    exact Bool.eq_false_iff.2 fun htrue => hgoes ⟨Nat.lt_trans hj hk, htrue⟩
  · exact Or.inr fun j hj => Bool.eq_false_iff.2 fun htrue => hstop ⟨j, hj, htrue⟩

/-- Whatever the answers are, if there is a layout it is **the one of the run**. -/
theorem eq_layout_of_importWith_eq_ok (hsteps : options.curveSteps ≠ 0) {layout : Layout}
    (h : (importWith union options abort text).1 = .ok layout) :
    layout = ImportRun.layout ⟨union, options, lines text⟩ := by
  rcases abort.exists_first_or_forall (lineCount text) with ⟨k, hk, hbefore, hstop⟩ | hgoes
  · -- the first answer to stop leaves no layout
    rw [importWith_of_first hsteps hk hbefore hstop] at h
    cases h
  · rw [importWith_of_forall hsteps hgoes] at h
    cases h
    rfl

/-- Texts with as many lines, which **lead to the same state**, cannot be told apart, whatever the
answers are. -/
theorem importWith_of_after_eq {text' : List Char}
    (hlength : (lines text).length = (lines text').length)
    (h : (Context.initial options).after union (lines text) =
      (Context.initial options).after union (lines text')) (abort : AbortSignal) :
    importWith union options abort text = importWith union options abort text' := by
  by_cases hsteps : options.curveSteps = 0
  · rw [importWith_of_curveSteps_eq_zero union hsteps,
      importWith_of_curveSteps_eq_zero union hsteps]
  have hcount : lineCount text = lineCount text' := by
    rw [← length_lines, hlength, length_lines]
  rcases abort.exists_first_or_forall (lineCount text) with ⟨k, hk, hbefore, hstop⟩ | hgoes
  · rw [importWith_of_first hsteps hk hbefore hstop,
      importWith_of_first hsteps (hcount ▸ hk) hbefore hstop]
  · rw [importWith_of_forall hsteps hgoes, importWith_of_forall hsteps (hcount ▸ hgoes), hcount,
      ImportRun.layout, ImportRun.layout, h]

/-- Answers that are all to stop stop an import exactly if the text has a piece that is not empty. -/
theorem importWith_always_eq_cancelled_iff (union : ContourUnion Float)
    (hsteps : options.curveSteps ≠ 0) (text : List Char) :
    (importWith union options (fun _ => true) text).1 = .error .cancelled ↔
      ∃ piece ∈ text.splitOnP isLineBreak, piece ≠ [] := by
  rw [← lineCount_pos_iff]
  constructor
  · intro hcancelled
    refine Nat.pos_of_ne_zero fun hnone => ?_
    rw [importWith_of_forall hsteps (by omega)] at hcancelled
    cases hcancelled
  · intro hpos
    rw [importWith_of_first hsteps hpos (by omega) rfl]

/-- **What the answers of the caller do.**  Options that cannot be used fail before the first
question.  Otherwise the first answer to stop, if a line is left for it, ends the import without a
layout; and without one the caller is asked once for every line that is not empty, and the layout is
that of an import that nobody stops.  An import in the background whose flag never changes is one
with this flag for every answer, however far its worker has got before it is waited for. -/
theorem import_cancellation (union : ContourUnion Float) (options : ImportOptions)
    (text : List Char) :
    (∀ abort, options.curveSteps = 0 →
        importWith union options abort text = (.error .noCurveSteps, 0)) ∧
      (options.curveSteps ≠ 0 →
        (∀ abort k, k < lineCount text → (∀ j < k, abort j = false) → abort k = true →
          importWith union options abort text = (.error .cancelled, k + 1)) ∧
        (∃ layout, (importWith union options (fun _ => false) text).1 = .ok layout ∧
          ∀ abort, (∀ j < lineCount text, abort j = false) →
            importWith union options abort text = (.ok layout, lineCount text)) ∧
        ((importWith union options (fun _ => true) text).1 = .error .cancelled ↔
          ∃ piece ∈ text.splitOnP isLineBreak, piece ≠ [])) ∧
      (importWith union options (fun _ => false) text).1 =
        importText union options (String.ofList text) ∧
      ∀ flag events, .cancel ∉ events → .panic ∉ events →
        ∃ job, ImportJob.spawn (.ok ()) options text flag = .ok job ∧
          (job.run union events).join union = (importWith union options (fun _ => flag) text).1 := by
  refine ⟨fun abort hsteps => importWith_of_curveSteps_eq_zero union hsteps abort text,
    fun hsteps => ⟨?_, ?_, importWith_always_eq_cancelled_iff union hsteps text⟩, ?_, ?_⟩
  · intro abort k hk hbefore hstop
    exact importWith_of_first hsteps hk hbefore hstop
  · refine ⟨_, importWith_never union hsteps text, fun abort h => ?_⟩
    exact importWith_of_forall hsteps h
  · rw [importText, String.toList_ofList]
  · intro flag events hcancel hpanic
    rw [← JobEvent.answers_of_not_mem hcancel flag]
    exact ImportJob.join_run_spawn hpanic options text flag

/-- Two lines that are not empty, with an empty one between them and a blank one at the end. -/
def spacedLines : List Char :=
  "0 0 9 9 re\n\r\nf\n\t".toList

theorem import_cancellation_spacedLines :
    (importWith separateShapes { curveSteps := 0 } (fun _ => true) spacedLines =
        (.error .noCurveSteps, 0)) ∧
      ({} : ImportOptions).curveSteps ≠ 0 ∧ lineCount spacedLines = 3 ∧
      importWith separateShapes {} (fun n => n == 2) spacedLines = (.error .cancelled, 3) ∧
      (∃ layout, (importWith separateShapes {} (fun _ => false) spacedLines).1 = .ok layout ∧
        importWith separateShapes {} (fun n => n == 3) spacedLines = (.ok layout, 3)) ∧
      ∃ job, ImportJob.spawn (.ok ()) {} spacedLines true = .ok job ∧
        (job.run separateShapes [.work]).join separateShapes = .error .cancelled := by
  have hcount : lineCount spacedLines = 3 := by decide +kernel
  obtain ⟨hinvalid, -, -⟩ := import_cancellation separateShapes { curveSteps := 0 } spacedLines
  obtain ⟨-, hvalid, -, hjob⟩ := import_cancellation separateShapes {} spacedLines
  obtain ⟨hfirst, ⟨layout, hlayout, hall⟩, -⟩ := hvalid (by decide)
  obtain ⟨job, hspawn, hjoin⟩ := hjob true [.work] (by decide) (by decide)
  refine ⟨hinvalid _ rfl, by decide, hcount, ?_, ⟨layout, hlayout, ?_⟩, job, hspawn, ?_⟩
  · exact hfirst _ 2 (by rw [hcount]; decide) (by decide) rfl
  · rw [← hcount]
    exact hall _ (by rw [hcount]; decide)
  · rw [hjoin, hfirst _ 0 (by rw [hcount]; decide) (by decide) rfl]

end Artwork
