import Artwork.Proofs.Layer.Invariant

/-!
**Clear and ordinary geometry do not interfere.**

A builder has two parts that never look at each other: the clear aperture, and everything else.  A
clear batch changes only the first, and every other call only the second.  So the calls of one kind
may be deleted from a run without a trace in the layers of the other kind.  Both halves are an
unwinding argument: one call at a time, and then along the run.

Main definitions:

* `LayerBuilder.withoutClear` — the builder apart from its clear aperture;
* `LayerBuilder.Call.cleared` — the entries that a call adds to the clear aperture.

Main results:

* `LayerBuilder.withoutClear_run` — the second part after a run, **from the calls that are not
  clear**;
* `LayerBuilder.clear_run` — the clear aperture after a run, **from those that are**;
* `LayerBuilder.finish_run_filter` — what this means for the finished layers.
-/

set_option relaxedAutoImplicit false
set_option autoImplicit false

namespace Artwork.LayerBuilder

/-! ### The ordinary part -/

/-- The builder as if nothing had been cleared. -/
def withoutClear (b : LayerBuilder) : LayerBuilder :=
  { b with clear := .new 0 }

theorem withoutClear_rollOver (b : LayerBuilder) :
    b.rollOver.withoutClear = b.withoutClear.rollOver := by
  unfold rollOver withoutClear
  dsimp only
  split <;> rfl

theorem withoutClear_readyFor (b : LayerBuilder) (color : Color Float) :
    (b.readyFor color).withoutClear = b.withoutClear.readyFor color := by
  unfold readyFor
  dsimp only
  have hpending : (b.withoutClear.observe color).rolloverPending
      = (b.observe color).rolloverPending := rfl
  rw [hpending]
  split
  · exact withoutClear_rollOver (b.observe color)
  · rfl

theorem withoutClear_put (b : LayerBuilder) (size : Float) (entries : List Entry) :
    (b.put size entries).withoutClear = b.withoutClear.put size entries := by
  have hname : b.withoutClear.isNew size = b.isNew size := rfl
  cases hnew : b.isNew size with
  | true =>
      rw [put_of_isNew entries hnew, put_of_isNew entries (hname.trans hnew),
        nameFor_of_isNew hnew, nameFor_of_isNew (hname.trans hnew)]
      rfl
  | false =>
      -- both builders remember the same names for their widths
      have hid : b.withoutClear.nameFor size = b.nameFor size := by
        have h := lookup_of_not_isNew (hname.trans hnew)
        rw [show b.withoutClear.widthIds = b.widthIds from rfl, lookup_of_not_isNew hnew,
          Option.some.injEq] at h
        exact h.symm
      rw [put_of_not_isNew entries hnew, put_of_not_isNew entries (hname.trans hnew), hid]
      rfl

/-- A clear batch leaves the ordinary part as it is. -/
theorem withoutClear_call_clear (b : LayerBuilder) {c : Call} (hc : c.isClear = true) :
    (b.call c).withoutClear = b.withoutClear := by
  cases c with
  | observe color => cases hc
  | classify batch width isClear color =>
      subst hc
      simp only [call]
      cases hbatch : batch.isEmpty with
      | true => rw [classify_of_isEmpty hbatch]
      | false =>
          rw [classify_clear hbatch]
          rfl

/-- What any other call does to the ordinary part does not depend on the clear aperture. -/
theorem withoutClear_call (b : LayerBuilder) {c : Call} (hc : c.isClear = false) :
    (b.call c).withoutClear = b.withoutClear.call c := by
  cases c with
  | observe color => rfl
  | classify batch width isClear color =>
      subst hc
      simp only [call]
      cases hbatch : batch.isEmpty with
      | true => rw [classify_of_isEmpty hbatch, classify_of_isEmpty hbatch]
      | false =>
          rw [classify_solid hbatch, classify_solid hbatch, withoutClear_put,
            withoutClear_readyFor]

/-- The ordinary part after a run comes from **the calls that are not clear**. -/
theorem withoutClear_run (b : LayerBuilder) (calls : List Call) :
    (b.run calls).withoutClear = b.withoutClear.run (calls.filter (!·.isClear)) := by
  induction calls generalizing b with
  | nil => rfl
  | cons c calls ih =>
      rw [run_cons, ih]
      cases hc : c.isClear with
      | true => rw [List.filter_cons_of_neg (by simp [hc]), withoutClear_call_clear b hc]
      | false =>
          rw [List.filter_cons_of_pos (by simp [hc]), run_cons, withoutClear_call b hc]

/-! ### The clear part -/

/-- The entries that a call adds to the clear aperture. -/
def Call.cleared : Call → List Entry
  | classify batch _ true _ => batch.map .clear
  | _ => []

theorem clear_readyFor (b : LayerBuilder) (color : Color Float) :
    (b.readyFor color).clear = b.clear := by
  unfold readyFor
  dsimp only
  split
  · exact rollOver_clear (b.observe color)
  · rfl

theorem clear_put (b : LayerBuilder) (size : Float) (entries : List Entry) :
    (b.put size entries).clear = b.clear := by
  cases hnew : b.isNew size with
  | true => rw [put_of_isNew entries hnew]
  | false => rw [put_of_not_isNew entries hnew]

theorem clear_call (b : LayerBuilder) (c : Call) : (b.call c).clear = b.clear.append c.cleared := by
  have hnothing : b.clear.append [] = b.clear := by simp [Aperture.append]
  cases c with
  | observe color => exact hnothing.symm
  | classify batch width isClear color =>
      simp only [call]
      cases hbatch : batch.isEmpty with
      | true =>
          rw [classify_of_isEmpty hbatch, List.isEmpty_iff.1 hbatch]
          cases isClear <;> exact hnothing.symm
      | false =>
          cases isClear with
          | true =>
              rw [classify_clear hbatch]
              rfl
          | false =>
              rw [classify_solid hbatch, clear_put, clear_readyFor]
              exact hnothing.symm

/-- The clear aperture after a run holds **what was cleared, in order**. -/
theorem clear_run (b : LayerBuilder) (calls : List Call) :
    (b.run calls).clear = b.clear.append (calls.flatMap Call.cleared) := by
  induction calls generalizing b with
  | nil => simp [Aperture.append]
  | cons c calls ih =>
      rw [run_cons, ih, clear_call]
      simp [Aperture.append]

theorem flatMap_cleared_filter (calls : List Call) :
    (calls.filter Call.isClear).flatMap Call.cleared = calls.flatMap Call.cleared := by
  induction calls with
  | nil => rfl
  | cons c calls ih =>
      cases hc : c.isClear with
      | true => rw [List.filter_cons_of_pos hc, List.flatMap_cons, List.flatMap_cons, ih]
      | false =>
          have hnothing : c.cleared = [] := by
            cases c with
            | observe color => rfl
            | classify batch width isClear color =>
                subst hc
                rfl
          rw [List.filter_cons_of_neg (by simp [hc]), List.flatMap_cons, hnothing, ih]
          rfl

/-! ### The finished layers -/

/-- **Clear and ordinary geometry do not interfere.**  Without its clear batches a run gives the
same ordinary layers, and without all its other calls it gives the same clear layer. -/
theorem finish_run_filter (startId : UInt32) (calls : List Call) :
    (∀ n, n ≠ clearLayer →
        ((new startId).run (calls.filter (!·.isClear))).finish.get? n =
          ((new startId).run calls).finish.get? n) ∧
      ((new startId).run (calls.filter Call.isClear)).finish.get? clearLayer =
        ((new startId).run calls).finish.get? clearLayer := by
  constructor
  · intro n hn
    have hsame : ((new startId).run (calls.filter (!·.isClear))).withoutClear =
        ((new startId).run calls).withoutClear := by
      rw [withoutClear_run, withoutClear_run, List.filter_filter]
      simp
    -- the completed layers are read off the ordinary part alone
    have hfrozen : ∀ b : LayerBuilder, b.rollOver.frozen = b.withoutClear.rollOver.frozen := by
      intro b
      rw [← withoutClear_rollOver]
      rfl
    rw [get?_finish_of_ne (wellFormed_run_new _ _) hn,
      get?_finish_of_ne (wellFormed_run_new _ _) hn, hfrozen, hsame, ← hfrozen]
  · rw [get?_finish_clearLayer (wellFormed_run_new _ _),
      get?_finish_clearLayer (wellFormed_run_new _ _), clear_run, clear_run, flatMap_cleared_filter]

end Artwork.LayerBuilder
