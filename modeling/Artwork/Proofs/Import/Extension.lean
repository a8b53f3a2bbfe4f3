import Artwork.Proofs.Import.Conservation
import Artwork.Proofs.Layer.Growth

/-!
**Extending a text.**

Lines that are added at the end of a text are further calls of the layer builder.  So the layout of
the longer text begins with that of the shorter one: it may have more polygons in the last layer and
among those that are cleared, and more layers after it, and nothing else is different.

Main results:

* `ImportRun.growsInto_layout` — more lines;
* `import_extension` — **more text** after a line break.
-/

set_option relaxedAutoImplicit false
set_option autoImplicit false

namespace Artwork

namespace ImportRun

/-- The layout of the first lines is the **beginning of that of all lines**. -/
theorem growsInto_layout {union : ContourUnion Float} {options : ImportOptions}
    {first rest : List (List Char)}
    (hminted : minted ⟨union, options, first ++ rest⟩ ≤ nameCount) :
    (layout ⟨union, options, first⟩).GrowsInto (layout ⟨union, options, first ++ rest⟩) := by
  have hfirst : (layout ⟨union, options, first⟩) =
      ((LayerBuilder.new options.startId).run
        (callsBefore ⟨union, options, first ++ rest⟩ first.length)).finish := by
    have hbefore : before ⟨union, options, first ++ rest⟩ first.length =
        (Context.initial options).after union first := by
      rw [before, List.take_left]
    have hlayers := layers_before ⟨union, options, first ++ rest⟩ first.length
    rw [hbefore] at hlayers
    rw [layout, Context.finish, hlayers]
  rw [minted, deposits_eq] at hminted
  rw [hfirst, layout_eq]
  dsimp only at hminted ⊢
  rw [List.length_append, callsBefore_add] at hminted ⊢
  exact LayerBuilder.growsInto_finish_run hminted

end ImportRun

/-- **An import only grows with its text**, as long as it mints no more names than there are. -/
theorem import_extension (union : ContourUnion Float) (options : ImportOptions)
    (hsteps : options.curveSteps ≠ 0) (first rest : List Char)
    (hminted : ImportRun.minted ⟨union, options, lines (first ++ '\n' :: rest)⟩ ≤ 2 ^ 32 - 1) :
    ∃ small large, (importWith union options (fun _ => false) first).1 = .ok small ∧
      (importWith union options (fun _ => false) (first ++ '\n' :: rest)).1 = .ok large ∧
      small.GrowsInto large := by
  refine ⟨_, _, importWith_never union hsteps _, importWith_never union hsteps _, ?_⟩
  have hlines : lines (first ++ '\n' :: rest) = lines first ++ lines rest :=
    runs_append_cons rfl first rest
  rw [hlines] at hminted ⊢
  exact ImportRun.growsInto_layout hminted

/-- Two more triangles after those of `twoTriangles`, one in the same colour and one in
another. -/
def moreTriangles : List Char :=
  "20 0 m\n30 0 l\n30 10 l\nf\n0 1 0 RG\n0 0 m\n10 0 l\n10 10 l\nf".toList

theorem import_extension_moreTriangles :
    ({} : ImportOptions).curveSteps ≠ 0 ∧
      ImportRun.minted ⟨separateShapes, {}, lines (twoTriangles ++ '\n' :: moreTriangles)⟩
        ≤ 2 ^ 32 - 1 ∧
      ∃ small large, (importWith separateShapes {} (fun _ => false) twoTriangles).1 = .ok small ∧
        (importWith separateShapes {} (fun _ => false) (twoTriangles ++ '\n' :: moreTriangles)).1 =
          .ok large ∧
        small.GrowsInto large :=
  ⟨by decide, by decide +kernel,
    import_extension separateShapes {} (by decide) twoTriangles moreTriangles (by decide +kernel)⟩

end Artwork
