import Artwork.Proofs.Import.Run
import Artwork.Proofs.Layer.Rollover
import Artwork.Proofs.Operator.Grammar

/-!
**Layers by stroke colour.**

A new layer begins at the first solid polygon after a line that has changed the stroke colour, also
if another line has changed it back in between.  Nothing else begins a layer: not a clear polygon,
not a path without area, and not a colour that is set before anything solid is painted.

Main definitions:

* `ImportRun.Layering` — **which layer every solid entry is in**.

Main results:

* `beq_self_of_colorSet` — a colour on a line is equal to itself;
* `ImportRun.layer_depositsAt_eq_iff` — **two solid entries in one layer**;
* `import_layering` — all this for the layout of an import.
-/

set_option relaxedAutoImplicit false
set_option autoImplicit false

namespace Artwork

open LayerBuilder (Call)

/-! ### Colours that can be compared -/

/-- A colour on a line **is equal to itself**. -/
theorem beq_self_of_colorSet {line : List Char} {color : Color Float}
    (h : Context.colorSet Operator.strokeColor? line = some color) : (color == color) = true := by
  have hoperand : ∀ {w : List Char} {x : Float}, IsOperand w x → (x == x) = true := by
    rintro w x ⟨n, -, hn⟩
    exact Numeral.beq_self_of_value? (Numeral.value?_eq_some_iff.2 hn)
  unfold Context.colorSet at h
  obtain ⟨op, hop, hcolor⟩ := Option.bind_eq_some_iff.1 h
  cases op with
  | strokeColor c =>
      -- the components are the values of three numerals
      obtain rfl := Option.some.inj hcolor
      have hspelled := classify_eq_some_iff.1 hop
      generalize words line = ws at hspelled
      cases hspelled with
      | strokeColor hr hg hb =>
          exact (color_beq_iff ..).2 ⟨hoperand hr, hoperand hg, hoperand hb⟩
  | _ => cases hcolor

theorem beq_self_black : ((Color.black : Color Float) == .black) = true := by decide +kernel

namespace ImportRun

variable (r : ImportRun)

theorem beq_self_strokeColor (i : Nat) :
    ((r.before i).strokeColor == (r.before i).strokeColor) = true := by
  induction i with
  | zero => exact beq_self_black
  | succ i ih =>
      rw [strokeColor_before_succ]
      cases h : r.strokeColorSetAt i with
      | none => exact ih
      | some color =>
          obtain ⟨line, -, hline⟩ := Option.bind_eq_some_iff.1 h
          exact beq_self_of_colorSet hline

/-! ### The colours that the builder sees -/

variable {r}

theorem seen_eq_of_mem_batchCalls {c : Context} {batch : Batch Float} {call : Call}
    (hcall : call ∈ c.batchCalls batch) {seen : Color Float} (hseen : call.seen? = some seen) :
    seen = c.strokeColor := by
  rcases List.mem_pair.1 hcall with rfl | rfl
  all_goals
    unfold Call.seen? at hseen
    dsimp only at hseen
    split at hseen
    · cases hseen
    · exact (Option.some.inj hseen).symm

/-- In a line the builder sees the stroke colour in force after it, if any. -/
theorem seen_eq_of_mem_callsAt {k : Nat} {call : Call} (hcall : call ∈ r.callsAt k)
    {seen : Color Float} (hseen : call.seen? = some seen) :
    seen = (r.before (k + 1)).strokeColor := by
  rw [strokeColor_before_succ]
  rcases r.callsAt_cases k with ⟨color, hset, hcalls, -⟩ | ⟨hset, hcalls⟩ | ⟨-, hcalls, -⟩
  · rw [hcalls, List.mem_singleton] at hcall
    rw [hcall] at hseen
    rw [hset]
    exact (Option.some.inj hseen).symm
  · rw [hcalls] at hcall
    rw [hset]
    exact seen_eq_of_mem_batchCalls hcall hseen
  · rw [hcalls] at hcall
    cases hcall

theorem exists_seen_of_strokeColorSetAt {k : Nat} {color : Color Float}
    (hset : r.strokeColorSetAt k = some color) : Call.observe color ∈ r.callsAt k := by
  rcases r.callsAt_cases k with ⟨color', hset', hcalls, -⟩ | ⟨hset', -⟩ | ⟨hset', -, -⟩
  · rw [hset] at hset'
    rw [hcalls, Option.some.inj hset']
    exact List.mem_singleton_self _
  · rw [hset] at hset'
    cases hset'
  · rw [hset] at hset'
    cases hset'

/-- While no line sets another colour than `x`, this colour stays in force. -/
theorem strokeColor_beq_of_forall {i m : Nat} {x : Color Float}
    (hi : ((r.before i).strokeColor == x) = true)
    (hset : ∀ k < m, ∀ color, r.strokeColorSetAt (i + k) = some color → (color == x) = true) :
    ((r.before (i + m)).strokeColor == x) = true := by
  induction m with
  | zero => exact hi
  | succ m ih =>
      rw [← Nat.add_assoc, strokeColor_before_succ]
      cases h : r.strokeColorSetAt (i + m) with
      | none => exact ih fun k hk => hset k (by omega)
      | some color => exact hset m (by omega) color h

/-! ### Two solid entries in one layer -/

/-- A line with a deposit sets no stroke colour, and the deposit is that of a solid batch in the one in
force. -/
theorem mem_depositsAt {i : Nat} {d : Deposit} (hd : d ∈ r.depositsAt i) :
    r.strokeColorSetAt i = none ∧
      ∃ early batch width late,
        r.callsAt i = early ++ .classify batch width false (r.before i).strokeColor :: late ∧
          batch.isEmpty = false ∧
          d = ((r.before i).layers.run early).deposit batch width (r.before i).strokeColor := by
  obtain ⟨early, batch, width, color, late, hcalls, hbatch, hdeposit⟩ :=
    LayerBuilder.mem_deposits_iff.1 hd
  have hmem : Call.classify batch width false color ∈ r.callsAt i := by
    rw [hcalls]
    exact List.mem_append_right _ (List.mem_cons_self ..)
  have hset : r.strokeColorSetAt i = none := by
    rcases r.callsAt_cases i with ⟨color', -, hcalls', -⟩ | ⟨hset, -⟩ | ⟨hset, -, -⟩
    · rw [hcalls', List.mem_singleton] at hmem
      cases hmem
    · exact hset
    · exact hset
  have hcolor : color = (r.before i).strokeColor := by
    have hseen : (Call.classify batch width false color).seen? = some color := by
      simp [Call.seen?, hbatch]
    have heq := seen_eq_of_mem_callsAt hmem hseen
    rwa [strokeColor_before_succ, hset] at heq
  rw [hcolor] at hcalls hdeposit
  exact ⟨hset, early, batch, width, late, hcalls, hbatch, hdeposit⟩

theorem strokeColor_before_succ_of_none {i : Nat} (hset : r.strokeColorSetAt i = none) :
    (r.before (i + 1)).strokeColor = (r.before i).strokeColor := by
  rw [strokeColor_before_succ, hset, Option.getD_none]

/-- A second deposit of the same line is in the same layer. -/
theorem layer_deposit_of_callsAt {i : Nat} (hset : r.strokeColorSetAt i = none)
    {early mid late : List Call} {batch batch' : List (Polygon Float)} {width width' : Float}
    (hbatch : batch.isEmpty = false)
    (hcalls : r.callsAt i =
      early ++ .classify batch width false (r.before i).strokeColor :: (mid ++ late)) :
    (((r.before i).layers.run
        (early ++ .classify batch width false (r.before i).strokeColor :: mid)).deposit
          batch' width' (r.before i).strokeColor).layer =
      (((r.before i).layers.run early).deposit batch width (r.before i).strokeColor).layer := by
  rw [LayerBuilder.run_append, LayerBuilder.run_cons]
  refine (LayerBuilder.layer_deposit_eq_iff ((r.wellFormed_before i).run early) hbatch ..).2 ?_
  have hself := r.beq_self_strokeColor i
  intro seen hseen
  rcases List.mem_append.1 hseen with hseen | hseen
  · obtain ⟨call, hcall, hsees⟩ := List.mem_filterMap.1 hseen
    have hmem : call ∈ r.callsAt i := by
      rw [hcalls]
      exact List.mem_append_right _ (List.mem_cons_of_mem _ (List.mem_append_left _ hcall))
    rw [seen_eq_of_mem_callsAt hmem hsees, strokeColor_before_succ_of_none hset]
    exact hself
  · rw [List.mem_singleton.1 hseen]
    exact hself

theorem layer_eq_of_mem_depositsAt {i : Nat} {d e : Deposit} (hd : d ∈ r.depositsAt i)
    (he : e ∈ r.depositsAt i) : d.layer = e.layer := by
  obtain ⟨hset, early, batch, width, late, hcalls, hbatch, rfl⟩ := mem_depositsAt hd
  obtain ⟨-, early', batch', width', late', hcalls', hbatch', rfl⟩ := mem_depositsAt he
  -- one of the two is painted after the other, unless they are the same
  have hsplit := hcalls.symm.trans hcalls'
  rcases List.append_eq_append_iff.1 hsplit with ⟨mid, rfl, hmid⟩ | ⟨mid, rfl, hmid⟩
  · cases mid with
    | nil =>
        obtain ⟨hcall, -⟩ := List.cons.inj hmid
        cases hcall
        rw [List.append_nil]
    | cons call mid =>
        obtain ⟨rfl, rfl⟩ := List.cons.inj hmid
        exact (layer_deposit_of_callsAt hset hbatch hcalls).symm
  · cases mid with
    | nil =>
        obtain ⟨hcall, -⟩ := List.cons.inj hmid
        cases hcall
        rw [List.append_nil]
    | cons call mid =>
        obtain ⟨rfl, rfl⟩ := List.cons.inj hmid
        exact layer_deposit_of_callsAt hset hbatch' hcalls'

/-- **Two solid entries are in one layer** exactly if every stroke colour that is set between their
lines equals the one in force at the first. -/
theorem layer_depositsAt_eq_iff {i j : Nat} (hij : i ≤ j) {d e : Deposit}
    (hd : d ∈ r.depositsAt i) (he : e ∈ r.depositsAt j) :
    d.layer = e.layer ↔
      ∀ k, i < k → k < j → ∀ color, r.strokeColorSetAt k = some color →
        (color == r.colorAt Operator.strokeColor? i) = true := by
  rcases Nat.eq_or_lt_of_le hij with rfl | hlt
  · exact iff_of_true (layer_eq_of_mem_depositsAt hd he) fun k hk hk' => by omega
  obtain ⟨m, rfl⟩ := Nat.exists_eq_add_of_le hlt
  obtain ⟨hset, early, batch, width, late, hcalls, hbatch, rfl⟩ := mem_depositsAt hd
  obtain ⟨hset', early', batch', width', late', hcalls', hbatch', rfl⟩ := mem_depositsAt he
  have hrun : (r.before (i + 1 + m)).layers.run early' =
      (((r.before i).layers.run early).call
          (.classify batch width false (r.before i).strokeColor)).run
        (late ++ ((List.range m).flatMap (fun k => r.callsAt (i + 1 + k)) ++ early')) := by
    rw [layers_before_add, layers_before_succ, hcalls]
    simp only [LayerBuilder.run_append, LayerBuilder.run_cons]
  rw [eq_comm, hrun, LayerBuilder.layer_deposit_eq_iff ((r.wellFormed_before i).run early) hbatch,
    ← strokeColor_before]
  constructor
  · -- a colour that is set is seen at once
    intro hseen k hk hk' color hcolor
    refine hseen color (List.mem_append_left _ (List.mem_filterMap.2 ⟨.observe color, ?_, rfl⟩))
    refine List.mem_append_right _ (List.mem_append_left _ ?_)
    refine List.mem_flatMap.2 ⟨k - (i + 1), ?_, ?_⟩
    · exact List.mem_range.2 (by omega)
    · rw [show i + 1 + (k - (i + 1)) = k by omega]
      exact exists_seen_of_strokeColorSetAt hcolor
  · -- whatever is seen is in force at that time, so it has been set or was there at the first line
    intro hcolors
    have hforce : ∀ n ≤ m,
        ((r.before (i + 1 + n)).strokeColor == (r.before i).strokeColor) = true := by
      intro n hn
      refine strokeColor_beq_of_forall ?_ fun k hk => hcolors (i + 1 + k) (by omega) (by omega)
      rw [strokeColor_before_succ_of_none hset]
      exact r.beq_self_strokeColor i
    intro seen hseen
    rcases List.mem_append.1 hseen with hseen | hseen
    · obtain ⟨call, hcall, hsees⟩ := List.mem_filterMap.1 hseen
      rcases List.mem_append.1 hcall with hlate | hcall
      · have hmem : call ∈ r.callsAt i := by
          rw [hcalls]
          exact List.mem_append_right _ (List.mem_cons_of_mem _ hlate)
        rw [seen_eq_of_mem_callsAt hmem hsees]
        exact hforce 0 (Nat.zero_le m)
      · rcases List.mem_append.1 hcall with hmid | hearly
        · obtain ⟨k, hk, hmem⟩ := List.mem_flatMap.1 hmid
          rw [seen_eq_of_mem_callsAt hmem hsees]
          exact hforce (k + 1) (List.mem_range.1 hk)
        · have hmem : call ∈ r.callsAt (i + 1 + m) := by
            rw [hcalls']
            exact List.mem_append_left _ hearly
          rw [seen_eq_of_mem_callsAt hmem hsees, strokeColor_before_succ_of_none hset']
          exact hforce m (Nat.le_refl m)
    · rw [List.mem_singleton.1 hseen]
      exact hforce m (Nat.le_refl m)

/-! ### The layout -/

theorem entries_ne_nil_of_mem_depositsAt {i : Nat} {d : Deposit} (hd : d ∈ r.depositsAt i) :
    d.entries ≠ [] := by
  obtain ⟨-, early, batch, width, late, -, hbatch, rfl⟩ := mem_depositsAt hd
  simpa [LayerBuilder.deposit, LayerBuilder.depositIn] using hbatch

theorem layer_le_of_mem_depositsAt {i j : Nat} (hij : i ≤ j) {d e : Deposit}
    (hd : d ∈ r.depositsAt i) (he : e ∈ r.depositsAt j) : d.layer ≤ e.layer := by
  rcases Nat.eq_or_lt_of_le hij with rfl | hlt
  · exact Int.le_of_eq (layer_eq_of_mem_depositsAt hd he)
  obtain ⟨m, rfl⟩ := Nat.exists_eq_add_of_le hlt
  have hfirst := (LayerBuilder.layer_mem_deposits (r.wellFormed_before i) hd).2
  have hsecond := (LayerBuilder.layer_mem_deposits (r.wellFormed_before _) he).1
  have hbetween := LayerBuilder.nextLayer_le_run (r.wellFormed_before (i + 1))
    ((List.range m).flatMap fun k => r.callsAt (i + 1 + k))
  rw [← layers_before_succ] at hfirst
  rw [← layers_before_add] at hbetween
  exact Int.le_trans hfirst (Int.le_trans hbetween hsecond)

/-- **Which layer every solid entry is in.** -/
structure Layering (r : ImportRun) (layout : Layout) : Prop where
  /-- The deposits of a line are its solid entries, in order. -/
  flatMap_entries : ∀ i, (r.depositsAt i).flatMap Deposit.entries = r.solidAt i
  entries_ne_nil : ∀ i, ∀ d ∈ r.depositsAt i, d.entries ≠ []
  /-- The ordinary layers hold the deposits, each in its place and nothing else. -/
  aperture?_eq : ∀ n, n ≠ clearLayer → ∀ id, layout.aperture? n id = stored r.deposits n id
  /-- Two deposits are in one layer exactly if every stroke colour that is set between their lines
  equals the one in force at the first. -/
  layer_eq_iff : ∀ i j, i ≤ j → ∀ d ∈ r.depositsAt i, ∀ e ∈ r.depositsAt j,
    (d.layer = e.layer ↔
      ∀ k, i < k → k < j → ∀ color, r.strokeColorSetAt k = some color →
        (color == r.colorAt Operator.strokeColor? i) = true)
  /-- Layers are numbered in the order of their first deposits, -/
  layer_le : ∀ i j, i ≤ j → ∀ d ∈ r.depositsAt i, ∀ e ∈ r.depositsAt j, d.layer ≤ e.layer
  /-- each of them has a deposit, -/
  isSome_iff : ∀ n, n ≠ clearLayer →
    ((layout.get? n).isSome = true ↔ ∃ d ∈ r.deposits, d.layer = n)
  /-- and the numbers run from one without a gap. -/
  exists_count : ∃ count : Nat, ∀ n, n ≠ clearLayer →
    ((layout.get? n).isSome = true ↔ 1 ≤ n ∧ n ≤ count)

theorem layering_layout (r : ImportRun) : r.Layering r.layout where
  flatMap_entries := r.flatMap_entries_depositsAt
  entries_ne_nil i d := entries_ne_nil_of_mem_depositsAt
  aperture?_eq n hn id := by
    rw [layout_eq, deposits_eq]
    exact LayerBuilder.aperture?_finish_run _ _ hn id
  layer_eq_iff i j hij d hd e he := layer_depositsAt_eq_iff hij hd he
  layer_le i j hij d hd e he := layer_le_of_mem_depositsAt hij hd he
  isSome_iff n hn := by
    rw [layout_eq, deposits_eq]
    exact LayerBuilder.isSome_finish_iff _ _ hn
  exists_count := by
    rw [layout_eq]
    exact LayerBuilder.exists_layer_count _ _

end ImportRun

/-- An import that is not stopped gives a layout **with layers by stroke colour**. -/
theorem import_layering (union : ContourUnion Float) (options : ImportOptions)
    (hsteps : options.curveSteps ≠ 0) (text : List Char) :
    ∃ layout, (importWith union options (fun _ => false) text).1 = .ok layout ∧
      ImportRun.Layering ⟨union, options, lines text⟩ layout :=
  ⟨_, importWith_never union hsteps text, ImportRun.layering_layout _⟩

/-- Two triangles, and a stroke colour that is set between them. -/
def twoTriangles : List Char :=
  "0 0 m\n10 0 l\n10 10 l\nf\n1 0 0 RG\n0 0 m\n10 0 l\n10 10 l\nf".toList

theorem import_layering_twoTriangles :
    ({} : ImportOptions).curveSteps ≠ 0 ∧
      (ImportRun.deposits ⟨separateShapes, {}, lines twoTriangles⟩).map
        (fun d => (d.layer, d.entries.length)) = [(1, 1), (2, 1)] ∧
      ∃ layout, (importWith separateShapes {} (fun _ => false) twoTriangles).1 = .ok layout ∧
        ImportRun.Layering ⟨separateShapes, {}, lines twoTriangles⟩ layout :=
  ⟨by decide, by decide +kernel, import_layering separateShapes {} (by decide) twoTriangles⟩

end Artwork
