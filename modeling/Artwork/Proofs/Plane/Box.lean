import Artwork.Proofs.Scalar
import Artwork.Plane.Box

/-!
**The least box around points.**

The box of a list of points is grown from its first point, as far as every other point asks.  It is the
least of all boxes that hold the points, and that does not depend on their order, or on how often each
of them occurs.

Main definitions:

* `Box.Holds`, `Box.Within` — a point in a box, and a box in another one;
* `Box.IsLeast` — **the least box** that holds some points.

Main results:

* `Box.within_foldl_extend_iff` — when a grown box is within another one;
* `Box.isLeast_of_ofPoints?` — growing gives the least box;
* `Box.ofPoints?_congr` — which **depends on the set of the points alone**.
-/

set_option relaxedAutoImplicit false
set_option autoImplicit false

namespace Artwork

variable {K : Type}

namespace Box

/-- The point is in the box, or on its border. -/
structure Holds [LE K] (b : Box K) (p : Point K) : Prop where
  x0_le : b.x0 ≤ p.x
  le_x1 : p.x ≤ b.x1
  y0_le : b.y0 ≤ p.y
  le_y1 : p.y ≤ b.y1

/-- The box reaches no further than another one to any side. -/
structure Within [LE K] (b c : Box K) : Prop where
  x0_le : c.x0 ≤ b.x0
  x1_le : b.x1 ≤ c.x1
  y0_le : c.y0 ≤ b.y0
  y1_le : b.y1 ≤ c.y1

/-- The box holds the points, and it is within **every box that does**. -/
structure IsLeast [LE K] (b : Box K) (ps : List (Point K)) : Prop where
  holds : ∀ p ∈ ps, b.Holds p
  within : ∀ c : Box K, (∀ p ∈ ps, c.Holds p) → b.Within c

end Box

variable [Field K] [LinearOrder K]

namespace Box

theorem Within.refl (b : Box K) : b.Within b :=
  ⟨le_rfl, le_rfl, le_rfl, le_rfl⟩

theorem Within.antisymm {b c : Box K} (h : b.Within c) (h' : c.Within b) : b = c := by
  obtain ⟨bx0, by0, bx1, by1⟩ := b
  obtain ⟨cx0, cy0, cx1, cy1⟩ := c
  rw [Box.mk.injEq]
  exact ⟨le_antisymm h'.x0_le h.x0_le, le_antisymm h'.y0_le h.y0_le, le_antisymm h.x1_le h'.x1_le,
    le_antisymm h.y1_le h'.y1_le⟩

/-- The box of a single point is within another box exactly if that one holds the point. -/
theorem within_ofPoint_iff {p : Point K} {c : Box K} : (ofPoint p).Within c ↔ c.Holds p :=
  ⟨fun h => ⟨h.x0_le, h.x1_le, h.y0_le, h.y1_le⟩, fun h => ⟨h.x0_le, h.le_x1, h.y0_le, h.le_y1⟩⟩

/-- A box grown by a point is within another one exactly if the box is and that one holds the point. -/
theorem within_extend_iff {b c : Box K} {p : Point K} :
    (b.extend p).Within c ↔ b.Within c ∧ c.Holds p := by
  unfold extend
  rw [Scalar.lesser_eq_min, Scalar.lesser_eq_min, Scalar.greater_eq_max, Scalar.greater_eq_max]
  constructor
  · rintro ⟨hx0, hx1, hy0, hy1⟩
    rw [le_min_iff] at hx0 hy0
    rw [max_le_iff] at hx1 hy1
    exact ⟨⟨hx0.1, hx1.1, hy0.1, hy1.1⟩, ⟨hx0.2, hx1.2, hy0.2, hy1.2⟩⟩
  · rintro ⟨hb, hp⟩
    exact ⟨le_min hb.x0_le hp.x0_le, max_le hb.x1_le hp.le_x1, le_min hb.y0_le hp.y0_le,
      max_le hb.y1_le hp.le_y1⟩

theorem within_foldl_extend_iff {b c : Box K} {ps : List (Point K)} :
    (ps.foldl extend b).Within c ↔ b.Within c ∧ ∀ p ∈ ps, c.Holds p := by
  induction ps generalizing b with
  | nil => simp
  | cons p ps ih => rw [List.foldl_cons, ih, within_extend_iff, and_assoc, List.forall_mem_cons]

/-- The box of points is within another box exactly if that one holds all of the points. -/
theorem within_iff_of_ofPoints? {ps : List (Point K)} {b : Box K} (h : ofPoints? ps = some b)
    (c : Box K) : b.Within c ↔ ∀ p ∈ ps, c.Holds p := by
  cases ps with
  | nil => cases h
  | cons p ps =>
      cases h
      rw [within_foldl_extend_iff, within_ofPoint_iff, List.forall_mem_cons]

/-- The box of points is **the least one** around them. -/
theorem isLeast_of_ofPoints? {ps : List (Point K)} {b : Box K} (h : ofPoints? ps = some b) :
    b.IsLeast ps where
  holds := (within_iff_of_ofPoints? h b).1 (Within.refl b)
  within c hc := (within_iff_of_ofPoints? h c).2 hc

theorem IsLeast.unique {ps : List (Point K)} {b c : Box K} (hb : b.IsLeast ps)
    (hc : c.IsLeast ps) : b = c :=
  (hb.within c hc.holds).antisymm (hc.within b hb.holds)

/-- Around one point or more there is a least box, and it is the one that is grown. -/
theorem exists_isLeast {ps : List (Point K)} (hps : ps ≠ []) :
    ∃ b, ofPoints? ps = some b ∧ b.IsLeast ps := by
  obtain ⟨b, hb⟩ := Option.isSome_iff_exists.1 ((isSome_ofPoints?_iff ps).2 hps)
  exact ⟨b, hb, isLeast_of_ofPoints? hb⟩

/-- The box depends on **the set of the points** alone. -/
theorem ofPoints?_congr {ps qs : List (Point K)} (h : ∀ p, p ∈ ps ↔ p ∈ qs) :
    ofPoints? ps = ofPoints? qs := by
  by_cases hps : ps = []
  · have hqs : qs = [] :=
      List.eq_nil_iff_forall_not_mem.2 fun p hp => by simpa [hps] using (h p).2 hp
    rw [hps, hqs]
  · have hqs : qs ≠ [] := by
      obtain ⟨p, hp⟩ := List.exists_mem_of_ne_nil ps hps
      exact List.ne_nil_of_mem ((h p).1 hp)
    obtain ⟨b, hb, hleast⟩ := exists_isLeast hps
    obtain ⟨c, hc, hleast'⟩ := exists_isLeast hqs
    have hsame : b.IsLeast qs :=
      ⟨fun p hp => hleast.holds p ((h p).2 hp),
        fun d hd => hleast.within d fun p hp => hd p ((h p).1 hp)⟩
    rw [hb, hc, hsame.unique hleast']

end Box

end Artwork
