import Mathlib.Data.List.Rotate
import Mathlib.Data.List.Forall2
import Artwork.Proofs.Plane.Box
import Artwork.Drill

/-!
**The hole of a polygon.**

The hole of a polygon is read off the least box around its exterior.  The box depends on the set of the
vertices alone, so it is the same wherever the exterior begins, whatever way it runs, and whether or not
it repeats its first point at the end.

Main definitions:

* `Polygon.Drilled` — **the hole of a polygon**, and what it does not depend on.

Main results:

* `Ring.mem_points_closed` — the vertices of a ring;
* `Polygon.isSome_drill?` — every polygon with a vertex has a hole;
* `Polygon.drilled_of_box?` — without rounding it is **the hole of the least box**.
-/

set_option relaxedAutoImplicit false
set_option autoImplicit false

namespace Artwork

section Scalar

variable {K : Type} [Scalar K]

/-- The vertices of a ring are **those of its outline**, led back to the start or not. -/
theorem Ring.mem_points_closed {outline : List (Point K)} {v : Point K} :
    v ∈ (Ring.closed outline).points ↔ v ∈ outline := by
  unfold closed
  split
  · next first last hfirst _ =>
      split
      · have hmem : first ∈ outline := List.mem_of_head? hfirst
        rw [List.mem_append, List.mem_singleton]
        exact ⟨fun h => h.elim id fun heq => heq ▸ hmem, Or.inl⟩
      · rfl
  · rfl

theorem Ring.length_le_closed (outline : List (Point K)) :
    outline.length ≤ (Ring.closed outline).points.length := by
  unfold closed
  split
  · split
    · rw [List.length_append]
      exact Nat.le_add_right ..
    · exact Nat.le_refl _
  · exact Nat.le_refl _

/-- Every polygon **with a vertex** has a hole. -/
theorem Polygon.isSome_drill? {p : Polygon K} (h : p.exterior.points ≠ []) :
    p.drill?.isSome = true := by
  rw [drill?, Option.isSome_map]
  exact (Box.isSome_ofPoints?_iff _).2 h

end Scalar

variable {K : Type} [Field K] [LinearOrder K]

namespace Polygon

/-- Polygons whose exteriors have the same vertices have the same hole. -/
theorem drill?_congr {p q : Polygon K}
    (h : ∀ v, v ∈ p.exterior.points ↔ v ∈ q.exterior.points) : p.drill? = q.drill? :=
  congrArg (Option.map Box.drill) (Box.ofPoints?_congr h)

/-- The hole is the same wherever the exterior begins, whichever way it runs and whatever is cut out. -/
theorem drill?_closed {outline turned : List (Point K)} (holes holes' : List (Ring K))
    (h : turned ~r outline ∨ turned ~r outline.reverse) :
    drill? ⟨.closed turned, holes⟩ = drill? ⟨.closed outline, holes'⟩ := by
  refine drill?_congr fun v => ?_
  rw [Ring.mem_points_closed, Ring.mem_points_closed]
  rcases h with hsame | hback
  · exact hsame.mem_iff
  · rw [hback.mem_iff, List.mem_reverse]

/-- **The hole of a polygon**, and what it does not depend on. -/
structure Drilled (p : Polygon K) (d : Drill K) : Prop where
  drill?_eq : p.drill? = some d
  /-- Its centre is the middle of the least box around the exterior, and its diameter the mean of the
  width and the height. -/
  exists_isLeast : ∃ b : Box K, b.IsLeast p.exterior.points ∧
    d.center = ⟨(b.x0 + b.x1) / 2, (b.y0 + b.y1) / 2⟩ ∧
      d.diameter = ((b.x1 - b.x0) + (b.y1 - b.y0)) / 2
  /-- A polygon whose exterior has the same vertices has the same hole, -/
  drill?_eq_of_mem_iff : ∀ q : Polygon K,
    (∀ v, v ∈ q.exterior.points ↔ v ∈ p.exterior.points) → q.drill? = some d
  /-- so that it does not matter where the exterior begins and which way it runs. -/
  drill?_turned : ∀ outline turned holes, p.exterior = .closed outline →
    (turned ~r outline ∨ turned ~r outline.reverse) → drill? ⟨.closed turned, holes⟩ = some d

/-- The hole of the box around a polygon is **the hole of the polygon**. -/
theorem drilled_of_box? {p : Polygon K} {b : Box K} (h : p.box? = some b) : p.Drilled b.drill := by
  have hdrill : p.drill? = some b.drill := congrArg (Option.map Box.drill) h
  refine ⟨hdrill, ⟨b, Box.isLeast_of_ofPoints? h, ?_, ?_⟩, fun q hq => (drill?_congr hq).trans hdrill,
    fun outline turned holes hexterior hturned => ?_⟩
  · unfold Box.drill Box.center
    rw [Nat.cast_ofNat]
  · unfold Box.drill Box.width Box.height
    rw [Nat.cast_ofNat]
  · obtain ⟨exterior, holes'⟩ := p
    dsimp only at hexterior
    subst hexterior
    exact (drill?_closed holes holes' hturned).trans hdrill

/-- Every polygon with a vertex has a hole. -/
theorem exists_drilled {p : Polygon K} (h : p.exterior.points ≠ []) : ∃ d, p.Drilled d := by
  obtain ⟨b, hb, -⟩ := Box.exists_isLeast h
  exact ⟨b.drill, drilled_of_box? hb⟩

end Polygon

end Artwork
