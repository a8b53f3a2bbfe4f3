import Artwork.Operator.Basic
import Mathlib

/-!
**Saving and restoring as brackets.**

An operator that saves the graphics state opens a level, and a restoring closes one.  A restoring is
paired with the latest saving before it that is still open, as brackets are.  Whatever operators
come between the two, the stack of states is afterwards what it was before the saving.  The
savings of a run lie on top of the states that were saved before it, so that a restoring without
a partner takes one of these.

Main definitions:

* `Operator.nesting`, `level` — by how much one operator, and a list of them, changes the nesting;
* `Balanced` — operators whose brackets match;
* `reach` — how far below their start operators go;
* `StillOpen` — **the latest saving without a partner**;
* `StateStack.follow`, `StateStack.followAll` — what operators do to the stack.

Main results:

* `StateStack.exists_saved_followAll` — how the stack after a run lies on the one before it;
* `StateStack.followAll_restore_of_stillOpen` — **a restoring undoes all since its partner**;
* `StateStack.followAll_restore_of_not_stillOpen` — a restoring without a partner.
-/

set_option relaxedAutoImplicit false
set_option autoImplicit false

namespace Artwork

variable {K : Type}

namespace Operator

/-- The operator saves the state, alone or in front of a matrix. -/
def saves : Operator K → Bool
  | save | transform true _ => true
  | _ => false

/-- By how much the operator changes the nesting: a saving opens a level, a restoring closes
one. -/
def nesting : Operator K → Int
  | save | transform true _ => 1
  | restore => -1
  | _ => 0

theorem nesting_of_saves {op : Operator K} (h : op.saves = true) : op.nesting = 1 := by
  cases op with
  | save => rfl
  | transform saving matrix =>
      cases saving with
      | true => rfl
      | false => cases h
  | _ => cases h

/-- An operator opens a level, closes one, or leaves the nesting alone. -/
theorem nesting_cases (op : Operator K) :
    op.saves = true ∨ op = .restore ∨ op.nesting = 0 := by
  cases op with
  | save => exact Or.inl rfl
  | restore => exact Or.inr (Or.inl rfl)
  | transform saving matrix =>
      cases saving with
      | true => exact Or.inl rfl
      | false => exact Or.inr (Or.inr rfl)
  | _ => exact Or.inr (Or.inr rfl)

end Operator

/-! ### Levels -/

/-- How many levels operators open, less those that they close. -/
def level (ops : List (Operator K)) : Int :=
  (ops.map Operator.nesting).sum

@[simp] theorem level_nil : level ([] : List (Operator K)) = 0 := rfl

@[simp] theorem level_cons (op : Operator K) (ops : List (Operator K)) :
    level (op :: ops) = op.nesting + level ops := by
  simp [level]

@[simp] theorem level_append (ops later : List (Operator K)) :
    level (ops ++ later) = level ops + level later := by
  simp [level]

/-- Operators whose brackets match: they end on the level where they begin, and they are never
below it. -/
structure Balanced (ops : List (Operator K)) : Prop where
  level_eq : level ops = 0
  level_nonneg : ∀ n, 0 ≤ level (ops.take n)

/-- How far below their start operators go. -/
def reach : List (Operator K) → Nat
  | [] => 0
  | op :: ops => ((reach ops : Int) - op.nesting).toNat

theorem exists_level_take_eq_neg_reach (ops : List (Operator K)) :
    ∃ n, level (ops.take n) = -(reach ops : Int) := by
  induction ops with
  | nil => exact ⟨0, rfl⟩
  | cons op ops ih =>
      obtain ⟨n, hn⟩ := ih
      by_cases hop : (reach ops : Int) ≤ op.nesting
      · refine ⟨0, ?_⟩
        rw [List.take_zero, level_nil, reach]
        omega
      · refine ⟨n + 1, ?_⟩
        rw [List.take_succ_cons, level_cons, reach]
        omega

theorem Balanced.reach_eq {ops : List (Operator K)} (h : Balanced ops) : reach ops = 0 := by
  obtain ⟨n, hn⟩ := exists_level_take_eq_neg_reach ops
  have hpos := h.level_nonneg n
  omega

/-- The saving right after `early` is **still open** at the end of the operators, and it is the
latest that is. -/
def StillOpen (early ops : List (Operator K)) : Prop :=
  ∃ opening inside, ops = early ++ opening :: inside ∧ opening.saves = true ∧ Balanced inside

/-- Either a saving is still open, or the level at the end is the lowest of all. -/
theorem exists_stillOpen_or (ops : List (Operator K)) :
    (∃ early, StillOpen early ops) ∨ ∀ n, level ops ≤ level (ops.take n) := by
  induction ops with
  | nil => exact Or.inr fun n => by simp
  | cons op ops ih =>
      rcases ih with ⟨early, opening, inside, rfl, hsaves, hinside⟩ | hlow
      · exact Or.inl ⟨op :: early, opening, inside, rfl, hsaves, hinside⟩
      have hlow₀ : level ops ≤ 0 := hlow 0
      by_cases hop : 0 < op.nesting + level ops
      · -- the first operator opens a level, and the others come back to it
        have hsaves : op.saves = true := by
          rcases op.nesting_cases with h | rfl | h
          · exact h
          · simp only [Operator.nesting] at hop
            omega
          · omega
        have hzero : level ops = 0 := by
          rw [Operator.nesting_of_saves hsaves] at hop
          omega
        exact Or.inl ⟨[], op, ops, rfl, hsaves, hzero, fun n => hzero ▸ hlow n⟩
      · refine Or.inr fun n => ?_
        cases n with
        | zero => simpa using hop
        | succ n =>
            rw [List.take_succ_cons, level_cons, level_cons]
            have hn := hlow n
            omega

namespace StateStack

variable [Scalar K]

/-- What an operator does to the stack of states. -/
def follow (factor : K) (s : StateStack K) : Operator K → StateStack K
  | .transform saving matrix => (if saving then s.save else s).concat matrix
  | .save => s.save
  | .restore => s.restore
  | .lineWidth width => s.setLineWidth factor width
  | _ => s

/-- What operators do to the stack, one after the other. -/
def followAll (factor : K) (s : StateStack K) (ops : List (Operator K)) : StateStack K :=
  ops.foldl (follow factor) s

theorem followAll_append (factor : K) (s : StateStack K) (ops later : List (Operator K)) :
    s.followAll factor (ops ++ later) = (s.followAll factor ops).followAll factor later :=
  List.foldl_append ..

theorem followAll_concat (factor : K) (s : StateStack K) (ops : List (Operator K))
    (op : Operator K) :
    s.followAll factor (ops ++ [op]) = (s.followAll factor ops).follow factor op :=
  followAll_append factor s ops [op]

theorem saved_follow_of_saves (factor : K) (s : StateStack K) {op : Operator K}
    (h : op.saves = true) : (s.follow factor op).saved = s.current :: s.saved := by
  cases op with
  | save => rfl
  | transform saving matrix =>
      cases saving with
      | true => rfl
      | false => cases h
  | _ => cases h

omit [Scalar K] in
theorem saved_restore (s : StateStack K) : s.restore.saved = s.saved.tail := by
  obtain ⟨current, saved⟩ := s
  cases saved <;> rfl

theorem saved_follow_of_nesting_eq_zero (factor : K) (s : StateStack K) {op : Operator K}
    (h : op.nesting = 0) : (s.follow factor op).saved = s.saved := by
  cases op with
  | save => cases h
  | restore => cases h
  | transform saving matrix =>
      cases saving with
      | true => cases h
      | false => rfl
  | _ => rfl

/-- The saved states after a run: what the run has saved, **on top of what it left of those
before**. -/
theorem exists_saved_followAll (factor : K) (s : StateStack K) (ops : List (Operator K)) :
    ∃ own : List (GraphicsState K),
      (s.followAll factor ops).saved = own ++ s.saved.drop (reach ops) ∧
        level ops = (own.length : Int) - reach ops := by
  induction ops generalizing s with
  | nil => exact ⟨[], rfl, rfl⟩
  | cons op ops ih =>
      obtain ⟨own, hsaved, hlevel⟩ := ih (s.follow factor op)
      rw [level_cons, reach]
      rcases op.nesting_cases with hop | rfl | hzero
      · have hone := Operator.nesting_of_saves hop
        rw [saved_follow_of_saves factor s hop] at hsaved
        cases hreach : reach ops with
        | zero =>
            -- the state that the first operator saves is never taken back
            refine ⟨own ++ [s.current], ?_, ?_⟩
            · rw [hreach] at hsaved
              rw [hone, List.append_assoc]
              exact hsaved
            · rw [List.length_append, List.length_singleton]
              omega
        | succ depth =>
            refine ⟨own, ?_, by omega⟩
            rw [hreach, List.drop_succ_cons] at hsaved
            rw [hone, show (((depth + 1 : Nat) : Int) - 1).toNat = depth by omega]
            exact hsaved
      · have hone : (Operator.restore : Operator K).nesting = -1 := rfl
        have htail : (s.follow factor .restore).saved = s.saved.tail := saved_restore s
        rw [htail, ← List.drop_one, List.drop_drop] at hsaved
        refine ⟨own, ?_, by omega⟩
        rw [hone, show ((reach ops : Int) - -1).toNat = 1 + reach ops by omega]
        exact hsaved
      · rw [saved_follow_of_nesting_eq_zero factor s hzero] at hsaved
        refine ⟨own, ?_, by omega⟩
        rw [hzero, Int.sub_zero, Int.toNat_natCast]
        exact hsaved

/-- Operators whose brackets match leave the saved states alone. -/
theorem saved_followAll_of_balanced (factor : K) (s : StateStack K) {ops : List (Operator K)}
    (h : Balanced ops) : (s.followAll factor ops).saved = s.saved := by
  obtain ⟨own, hsaved, hlevel⟩ := exists_saved_followAll factor s ops
  rw [h.reach_eq] at hsaved hlevel
  have hown : own = [] := List.length_eq_zero_iff.1 (by
    have hzero := h.level_eq
    omega)
  rw [hsaved, hown, List.nil_append, List.drop_zero]

/-- A restoring makes the stack **what it was before the saving that it is paired with**. -/
theorem followAll_restore_of_stillOpen (factor : K) (s : StateStack K)
    {early ops : List (Operator K)} (h : StillOpen early ops) :
    s.followAll factor (ops ++ [.restore]) = s.followAll factor early := by
  obtain ⟨opening, inside, rfl, hsaves, hinside⟩ := h
  have hsaved : (s.followAll factor (early ++ opening :: inside)).saved =
      (s.followAll factor early).current :: (s.followAll factor early).saved := by
    rw [followAll_append]
    exact (saved_followAll_of_balanced factor _ hinside).trans
      (saved_follow_of_saves factor _ hsaves)
  rw [followAll_concat]
  change restore _ = _
  rw [restore, restore?, hsaved]
  rfl

/-- Where no saving is open, the saved states are those from before the run, less one for each
level that the run has closed. -/
theorem saved_followAll_of_not_stillOpen (factor : K) (s : StateStack K) {ops : List (Operator K)}
    (h : ∀ early, ¬ StillOpen early ops) :
    (s.followAll factor ops).saved = s.saved.drop (-level ops).toNat := by
  obtain ⟨own, hsaved, hlevel⟩ := exists_saved_followAll factor s ops
  obtain ⟨n, hn⟩ := exists_level_take_eq_neg_reach ops
  have hlowest := (exists_stillOpen_or ops).resolve_left (fun ⟨early, hopen⟩ => h early hopen) n
  have hown : own = [] := List.length_eq_zero_iff.1 (by omega)
  rw [hown, List.length_nil] at hlevel
  rw [hsaved, hown, List.nil_append, show (-level ops).toNat = reach ops by omega]

/-- A restoring without a partner changes nothing if **no state is left** of those saved before the
run, and otherwise takes the latest of them. -/
theorem followAll_restore_of_not_stillOpen (factor : K) (s : StateStack K)
    {ops : List (Operator K)} (h : ∀ early, ¬ StillOpen early ops) :
    (s.saved.drop (-level ops).toNat = [] →
        s.followAll factor (ops ++ [.restore]) = s.followAll factor ops) ∧
      ∀ state rest, s.saved.drop (-level ops).toNat = state :: rest →
        s.followAll factor (ops ++ [.restore]) = ⟨state, rest⟩ := by
  rw [followAll_concat]
  change (_ → restore _ = _) ∧ ∀ state rest, _ → restore _ = _
  rw [restore, restore?, saved_followAll_of_not_stillOpen factor s h]
  refine ⟨fun hnone => ?_, fun state rest hsome => ?_⟩
  · rw [hnone]
    rfl
  · rw [hsome]
    rfl

end StateStack

end Artwork
