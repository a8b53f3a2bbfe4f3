import Artwork.Text.Runs

/-!
**What cutting a text gives.**

A list is cut into its maximal runs in exactly one way.  The relation `Cut` says what a cut is, a
run between separators or the ends of the list, without saying how it is found.

Main definitions:

* `Cut` — a list and its maximal runs;
* `IsBoundary` — two parts of a list that no run reaches across;
* `IsPiece` — a part of a list that is **one of its pieces**.

Main results:

* `cut_runs` — the runs that are computed are a cut;
* `Cut.eq_runs` — there is no other;
* `IsBoundary.runs_append` — at a boundary the runs of the parts are those of the whole;
* `IsPiece.runs_append` — the runs before a piece, the piece, and the runs after it;
* `exists_isPiece_of_mem_runs` — every run is a piece;
* `runs_eq_filter_splitOnP` — the runs are the pieces between the separators, **without the empty
  ones**.
-/

set_option relaxedAutoImplicit false
set_option autoImplicit false

namespace Artwork

variable {α : Type}

/-- The pieces are the **maximal runs** without a separator: between them, before the first and
after the last there are only separators, and at least one between two of them. -/
inductive Cut (separates : α → Bool) : List α → List (List α) → Prop
  | gap {gap : List α} : (∀ a ∈ gap, separates a = true) → Cut separates gap []
  | run {gap run rest : List α} {pieces : List (List α)} :
      (∀ a ∈ gap, separates a = true) → run ≠ [] → (∀ a ∈ run, separates a = false) →
      (∀ a, rest.head? = some a → separates a = true) → Cut separates rest pieces →
      Cut separates (gap ++ (run ++ rest)) (run :: pieces)

variable {separates : α → Bool}

/-- Separators in front do not change the runs. -/
theorem runs_gap_append {gap : List α} (hgap : ∀ a ∈ gap, separates a = true) (as : List α) :
    runs separates (gap ++ as) = runs separates as := by
  induction gap with
  | nil => rfl
  | cons a gap ih =>
      rw [List.cons_append, runs_separator (hgap a (List.mem_cons_self ..))]
      exact ih fun a' ha' => hgap a' (List.mem_cons_of_mem _ ha')

/-- A list of separators has no run. -/
theorem runs_gap {gap : List α} (hgap : ∀ a ∈ gap, separates a = true) :
    runs separates gap = [] := by
  have h := runs_gap_append hgap []
  rwa [List.append_nil, runs_nil] at h

/-- Around one separator or more, the runs of a list are those of the parts before and after them. -/
theorem runs_append_gap_append {gap : List α} (hne : gap ≠ [])
    (hgap : ∀ a ∈ gap, separates a = true) (as bs : List α) :
    runs separates (as ++ (gap ++ bs)) = runs separates as ++ runs separates bs := by
  obtain ⟨a, gap, rfl⟩ := List.exists_cons_of_ne_nil hne
  obtain ⟨ha, hgap⟩ := List.forall_mem_cons.1 hgap
  rw [List.cons_append, runs_append_cons ha, runs_gap_append hgap]

/-- Separators at the end do not change the runs. -/
theorem runs_append_gap {gap : List α} (hgap : ∀ a ∈ gap, separates a = true) (as : List α) :
    runs separates (as ++ gap) = runs separates as := by
  cases gap with
  | nil => rw [List.append_nil]
  | cons a gap =>
      have h := runs_append_gap_append (List.cons_ne_nil a gap) hgap as []
      rwa [List.append_nil, runs_nil, List.append_nil] at h

/-- A list without separators is one run. -/
theorem runs_of_run {run : List α} (hne : run ≠ []) (hrun : ∀ a ∈ run, separates a = false) :
    runs separates run = [run] := by
  have hsplit : splitFirst separates run = (run, []) := by
    clear hne
    induction run with
    | nil => rfl
    | cons a run ih =>
        rw [splitFirst_cons, ih fun a' ha' => hrun a' (List.mem_cons_of_mem _ ha'), extendRun,
          hrun a (List.mem_cons_self ..)]
        rfl
  rw [runs, hsplit, consRun, if_neg (by simpa using hne)]

/-- **There is no other cut** than the runs that are computed. -/
theorem Cut.eq_runs {as : List α} {pieces : List (List α)} (h : Cut separates as pieces) :
    pieces = runs separates as := by
  induction h with
  | gap hgap => rw [runs_gap hgap]
  | @run gap run rest pieces hgap hne hrun hrest _ ih =>
      rw [runs_gap_append hgap, ih]
      cases rest with
      | nil => rw [List.append_nil, runs_of_run hne hrun, runs_nil]
      | cons a rest =>
          have ha := hrest a rfl
          rw [runs_append_cons ha, runs_of_run hne hrun, runs_separator ha]
          rfl

/-- With one more member in front, a list that can be cut can be cut as well. -/
theorem Cut.exists_cons {as : List α} {pieces : List (List α)} (h : Cut separates as pieces)
    (a : α) : ∃ pieces', Cut separates (a :: as) pieces' := by
  cases ha : separates a with
  | true =>
      refine ⟨pieces, ?_⟩
      cases h with
      | gap hgap => exact .gap (List.forall_mem_cons.2 ⟨ha, hgap⟩)
      | run hgap hne hrun hrest hcut =>
          -- a separator goes to the gap in front
          exact .run (List.forall_mem_cons.2 ⟨ha, hgap⟩) hne hrun hrest hcut
  | false =>
      have hsingle : ∀ a' ∈ [a], separates a' = false := by simpa using ha
      have hnogap : ∀ a' ∈ ([] : List α), separates a' = true := nofun
      by_cases hhead : ∀ a', as.head? = some a' → separates a' = true
      · exact ⟨[a] :: pieces, .run hnogap (List.cons_ne_nil a []) hsingle hhead h⟩
      · -- the list begins with a run, which the new member extends
        cases h with
        | gap hgap =>
            refine absurd (fun a' ha' => ?_) hhead
            exact hgap a' (List.mem_of_mem_head? ha')
        | @run gap run rest pieces hgap hne hrun hrest hcut =>
            cases gap with
            | nil =>
                exact ⟨(a :: run) :: pieces,
                  .run hnogap (List.cons_ne_nil a run) (List.forall_mem_cons.2 ⟨ha, hrun⟩) hrest
                    hcut⟩
            | cons a₀ gap =>
                refine absurd (fun a' ha' => ?_) hhead
                obtain rfl : a₀ = a' := by simpa using ha'
                exact hgap a₀ (List.mem_cons_self ..)

/-- The runs that are computed **are a cut**. -/
theorem cut_runs (separates : α → Bool) (as : List α) : Cut separates as (runs separates as) := by
  suffices h : ∃ pieces, Cut separates as pieces by
    obtain ⟨pieces, hcut⟩ := h
    rwa [← hcut.eq_runs]
  induction as with
  | nil => exact ⟨[], .gap nofun⟩
  | cons a as ih =>
      obtain ⟨pieces, hcut⟩ := ih
      exact hcut.exists_cons a

/-! ### Boundaries -/

/-- Between two parts of a list there is a boundary: the first is empty or ends with a separator,
or the second is empty or begins with one. -/
def IsBoundary (separates : α → Bool) (as bs : List α) : Prop :=
  (∀ a, as.getLast? = some a → separates a = true) ∨
    ∀ b, bs.head? = some b → separates b = true

theorem isBoundary_of_getLast? {as : List α} {a : α} (h : as.getLast? = some a)
    (ha : separates a = true) (bs : List α) : IsBoundary separates as bs := by
  refine Or.inl fun a' ha' => ?_
  rw [h, Option.some.injEq] at ha'
  rw [← ha', ha]

/-- A boundary in front of a part that is not empty is one in front of all that begins with it. -/
theorem IsBoundary.append_right {as bs : List α} (h : IsBoundary separates as bs) (hbs : bs ≠ [])
    (cs : List α) : IsBoundary separates as (bs ++ cs) := by
  obtain ⟨b, bs, rfl⟩ := List.exists_cons_of_ne_nil hbs
  exact h

/-- At a boundary the runs of the parts are **those of the whole**. -/
theorem IsBoundary.runs_append {as bs : List α} (h : IsBoundary separates as bs) :
    runs separates (as ++ bs) = runs separates as ++ runs separates bs := by
  rcases h with h | h
  · rcases List.eq_nil_or_concat as with rfl | ⟨as, a, rfl⟩
    · rfl
    · rw [List.concat_eq_append] at h ⊢
      have ha : separates a = true := h a (by simp)
      rw [List.append_assoc, List.singleton_append, runs_append_cons ha,
        runs_append_separator ha]
  · cases bs with
    | nil => simp
    | cons b bs =>
        have hb : separates b = true := h b rfl
        rw [runs_append_cons hb, runs_separator hb]

/-- The middle part of a list is **one of its pieces**, which may be empty: it has no separator, and
there are separators or the ends of the list around it. -/
structure IsPiece (separates : α → Bool) (before piece after : List α) : Prop where
  before : ∀ a, before.getLast? = some a → separates a = true
  piece : ∀ a ∈ piece, separates a = false
  after : ∀ a, after.head? = some a → separates a = true

/-- A piece that is not empty **is a run**, and the others are those of the parts before and after
it. -/
theorem IsPiece.runs_append {before piece after : List α} (h : IsPiece separates before piece after) :
    runs separates (before ++ (piece ++ after)) =
      runs separates before ++ consRun piece (runs separates after) := by
  have hbefore : IsBoundary separates before (piece ++ after) := Or.inl h.before
  have hafter : IsBoundary separates piece after := Or.inr h.after
  rw [hbefore.runs_append, hafter.runs_append]
  cases piece with
  | nil => rfl
  | cons a piece =>
      rw [runs_of_run (List.cons_ne_nil a piece) h.piece]
      rfl

/-- Every run of a list **is one of its pieces**. -/
theorem exists_isPiece_of_mem_runs {as piece : List α} (h : piece ∈ runs separates as) :
    ∃ before after, as = before ++ (piece ++ after) ∧ IsPiece separates before piece after := by
  have hcut := cut_runs separates as
  generalize runs separates as = pieces at h hcut
  suffices key : ∃ before after, as = before ++ (piece ++ after) ∧
      IsPiece separates before piece after ∧ piece ≠ [] by
    obtain ⟨before, after, heq, hpiece, -⟩ := key
    exact ⟨before, after, heq, hpiece⟩
  induction hcut with
  | gap => cases h
  | @run gap run rest pieces hgap hne hrun hrest _ ih =>
      rcases List.mem_cons.1 h with rfl | h
      · exact ⟨gap, rest, rfl, ⟨fun a ha => hgap a (List.mem_of_getLast? ha), hrun, hrest⟩, hne⟩
      · obtain ⟨before, after, rfl, hpiece, hpieceNe⟩ := ih h
        refine ⟨gap ++ (run ++ before), after, by simp, ⟨fun a ha => ?_, hpiece.piece,
          hpiece.after⟩, hpieceNe⟩
        cases before with
        | nil =>
            -- the rest would begin with the piece itself, and not with a separator
            obtain ⟨b, piece, rfl⟩ := List.exists_cons_of_ne_nil hpieceNe
            have hsep := hrest b rfl
            rw [hpiece.piece b (List.mem_cons_self ..)] at hsep
            cases hsep
        | cons b before =>
            refine hpiece.before a ?_
            rw [List.getLast?_append, List.getLast?_append, List.getLast?_cons] at ha
            rwa [List.getLast?_cons]

/-! ### Empty pieces -/

/-- The runs are the pieces between the separators, **without the empty ones**. -/
theorem runs_eq_filter_splitOnP (separates : α → Bool) (as : List α) :
    runs separates as = (as.splitOnP separates).filter (!·.isEmpty) := by
  -- the first piece may be empty and grow later, so it is kept apart
  suffices key : ∀ first rest, as.splitOnP separates = first :: rest →
      splitFirst separates as = (first, rest.filter (!·.isEmpty)) by
    obtain ⟨first, rest, hsplit⟩ := List.exists_cons_of_ne_nil (List.splitOnP_ne_nil separates as)
    rw [runs, key first rest hsplit, hsplit, consRun]
    cases first <;> rfl
  induction as with
  | nil =>
      intro first rest hsplit
      obtain ⟨rfl, rfl⟩ := List.cons.inj hsplit
      rfl
  | cons a as ih =>
      obtain ⟨next, others, hsplit⟩ := List.exists_cons_of_ne_nil (List.splitOnP_ne_nil separates as)
      intro first rest h
      rw [List.splitOnP_cons_eq_if_modifyHead, hsplit] at h
      rw [splitFirst_cons, ih next others hsplit, extendRun]
      cases ha : separates a with
      | true =>
          rw [ha, if_pos rfl] at h
          obtain ⟨rfl, rfl⟩ := List.cons.inj h
          cases next <;> rfl
      | false =>
          rw [ha, if_neg Bool.false_ne_true] at h
          obtain ⟨rfl, rfl⟩ := List.cons.inj h
          rfl

end Artwork
