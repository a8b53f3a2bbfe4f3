import Artwork.Proofs.Path.Continuity
import Artwork.Proofs.Path.Handover

/-!
**Paths of lines, and paths of curves.**

The steps of a path that holds only lines, or only curves, say in order which subpaths are wanted.
Each subpath begins with a move, or it goes on from the same start after a closing; then come the
pieces that are drawn, and the closings.  Here the steps are cut into such *drafts*, and the path is
shown to hold what its drafts say: a draft with a closing is a closed subpath, and the last one,
if it has no closing, is the open subpath.  Any other draft without a closing is followed by a move,
which has abandoned it.

Main definitions:

* `Draft`, `Draft.steps` — a subpath as it was asked for, and the steps that ask for it;
* `Draft.vertices`, `Draft.outline`, `Draft.chain` — the polyline or the chain of a draft;
* `Drafted` — **steps cut into drafts**;
* `Path.HoldsLines`, `Path.HoldsCurves` — a path that holds what its drafts say.

Main results:

* `Drafted.exists_of_run` — what is kept while drafts grow holds of every path;
* `Path.exists_holdsLines`, `Path.exists_holdsCurves` — paths of one kind hold what their drafts
  say;
* `Path.pending?_run_drafts` — **what is handed over** of such a path.
-/

set_option relaxedAutoImplicit false
set_option autoImplicit false

namespace Artwork

variable {K : Type}

namespace Construction

/-- The step draws a piece of a polyline, or of a chain of curves. -/
def draws : SubpathKind → Construction K → Bool
  | .lines, lineTo _ => true
  | .curves, c => c.isCurve
  | _, _ => false

/-- A step of a path of lines, or of curves, is a move, a closing, or it draws a piece. -/
theorem builds_cases {kind : SubpathKind} (hkind : kind ≠ .rectangle) {c : Construction K}
    (h : c.builds kind = true) : (∃ p, c = .moveTo p) ∨ c = .closePath ∨ c.draws kind = true := by
  cases c with
  | moveTo p => exact Or.inl ⟨p, rfl⟩
  | closePath => exact Or.inr (Or.inl rfl)
  | lineTo | curveTo | curveFromCurrent | curveIntoStop =>
      cases kind with
      | lines | curves => exact Or.inr (Or.inr h)
      | rectangle => exact absurd rfl hkind
  | rectangle | clip => cases kind <;> first | exact absurd rfl hkind | cases h

/-- Where a line ends. -/
def lineStop? : Construction K → Option (Point K)
  | lineTo p => some p
  | _ => none

/-- Where a move leads. -/
def movedTo? : Construction K → Option (Point K)
  | moveTo p => some p
  | _ => none

/-- The curve that a step draws from a point. -/
def segment? (p : Point K) : Construction K → Option (Segment K)
  | curveTo c₁ c₂ stop => some ⟨p, c₁, c₂, stop⟩
  | curveFromCurrent c₂ stop => some ⟨p, p, c₂, stop⟩
  | curveIntoStop c₁ stop => some ⟨p, c₁, stop, stop⟩
  | _ => none

/-- The chain of curves that steps draw from a point, each from the stop of the last. -/
def chainFrom (p : Point K) : List (Construction K) → List (Segment K)
  | [] => []
  | c :: cs =>
    match c.segment? p with
    | some s => s :: chainFrom s.stop cs
    | none => chainFrom p cs

/-- Where a chain of curves stops, or else where it would begin. -/
def stopOf (p : Point K) (chain : List (Segment K)) : Point K :=
  (chain.getLast?.map Segment.stop).getD p

theorem movedTo?_of_draws {kind : SubpathKind} {c : Construction K} (h : c.draws kind = true) :
    c.movedTo? = none := by
  cases c with
  | moveTo => cases kind <;> cases h
  | _ => rfl

theorem exists_segment? {c : Construction K} (h : c.isCurve = true) (p : Point K) :
    ∃ s, c.segment? p = some s := by
  cases c with
  | curveTo | curveFromCurrent | curveIntoStop => exact ⟨_, rfl⟩
  | _ => cases h

theorem chainFrom_singleton (p : Point K) (c : Construction K) :
    chainFrom p [c] = (c.segment? p).toList := by
  unfold chainFrom
  cases c.segment? p <;> rfl

theorem stopOf_cons (p : Point K) (s : Segment K) (chain : List (Segment K)) :
    stopOf p (s :: chain) = stopOf s.stop chain := by
  unfold stopOf
  rw [List.getLast?_cons]
  cases chain.getLast? <;> rfl

/-- One more curve begins where the chain has stopped. -/
theorem chainFrom_concat (p : Point K) (cs : List (Construction K)) (c : Construction K) :
    chainFrom p (cs ++ [c]) =
      chainFrom p cs ++ (c.segment? (stopOf p (chainFrom p cs))).toList := by
  induction cs generalizing p with
  | nil => exact chainFrom_singleton p c
  | cons b cs ih =>
      rw [List.cons_append]
      simp only [chainFrom]
      cases b.segment? p with
      | none => exact ih p
      | some s =>
          dsimp only
          rw [ih, stopOf_cons]
          rfl

theorem chainFrom_eq_nil_iff {cs : List (Construction K)} (h : ∀ c ∈ cs, c.isCurve = true)
    (p : Point K) : chainFrom p cs = [] ↔ cs = [] := by
  cases cs with
  | nil => exact iff_of_true rfl rfl
  | cons c cs =>
      obtain ⟨s, hs⟩ := exists_segment? (h c (List.mem_cons_self ..)) p
      simp [chainFrom, hs]

end Construction

/-! ### Drafts -/

/-- A subpath **as it was asked for**: the point where it starts; whether it begins with the move to
this point, or goes on from there after a closing; the pieces that are drawn; and how many closings
come then. -/
structure Draft (K : Type) where
  start : Point K
  moved : Bool
  pieces : List (Construction K)
  closings : Nat
  deriving Repr, DecidableEq

namespace Draft

/-- The steps that **ask for** the subpath. -/
def steps (d : Draft K) : List (Construction K) :=
  (if d.moved then [.moveTo d.start] else []) ++
    (d.pieces ++ List.replicate d.closings .closePath)

/-- The subpath is closed. -/
def isClosed (d : Draft K) : Bool :=
  d.closings != 0

/-- The polyline without a return to its start. -/
def vertices (d : Draft K) : List (Point K) :=
  d.start :: d.pieces.filterMap Construction.lineStop?

/-- The closed polyline: its start is repeated, unless it ends there already. -/
def outline [Scalar K] (d : Draft K) : List (Point K) :=
  d.vertices ++
    if (d.pieces.filterMap Construction.lineStop?).getLast?.getD d.start != d.start then [d.start]
    else []

/-- The chain of curves. -/
def chain (d : Draft K) : List (Segment K) :=
  Construction.chainFrom d.start d.pieces

/-- The closed polylines that drafts ask for. -/
def outlines [Scalar K] (drafts : List (Draft K)) : List (List (Point K)) :=
  (drafts.filter isClosed).map outline

/-- The closed chains that drafts ask for.  Without a curve there is none to be closed. -/
def chains (drafts : List (Draft K)) : List (List (Segment K)) :=
  ((drafts.filter isClosed).map chain).filter (!·.isEmpty)

/-- One draft comes after another: it begins with a move, or it goes on from the same start after
a closing. -/
def Follows (d e : Draft K) : Prop :=
  e.moved = true ∨ d.isClosed = true ∧ e.start = d.start ∧ e.pieces ≠ []

/-- The draft of a subpath that begins with a move. -/
def begun (p : Point K) : Draft K :=
  ⟨p, true, [], 0⟩

/-- The draft of a subpath that goes on from the start of a closed one. -/
def again (d : Draft K) (c : Construction K) : Draft K :=
  ⟨d.start, false, [c], 0⟩

/-- One more piece is drawn. -/
def draw (d : Draft K) (c : Construction K) : Draft K :=
  { d with pieces := d.pieces ++ [c] }

/-- One more closing comes. -/
def close (d : Draft K) : Draft K :=
  { d with closings := d.closings + 1 }

theorem steps_draw {d : Draft K} (h : d.isClosed = false) (c : Construction K) :
    (d.draw c).steps = d.steps ++ [c] := by
  have hzero : d.closings = 0 := by simpa [isClosed] using h
  unfold steps draw
  dsimp only
  rw [hzero, List.replicate_zero, List.append_nil, List.append_nil, List.append_assoc]

theorem steps_close (d : Draft K) : d.close.steps = d.steps ++ [.closePath] := by
  unfold steps close
  dsimp only
  rw [List.replicate_succ', List.append_assoc, List.append_assoc]

theorem isClosed_close (d : Draft K) : d.close.isClosed = true := by
  simp [isClosed, close]

/-- The last step of a draft is a closing, or else the last piece, or else the move. -/
theorem getLast?_steps {d : Draft K} (h : d.moved = true ∨ d.pieces ≠ []) :
    d.steps.getLast? =
      some (if d.isClosed then .closePath else d.pieces.getLast?.getD (.moveTo d.start)) := by
  obtain ⟨start, moved, pieces, closings⟩ := d
  cases closings with
  | succ n => simp [steps, isClosed, List.replicate_succ', ← List.append_assoc]
  | zero =>
      rcases List.eq_nil_or_concat pieces with rfl | ⟨pieces, c, rfl⟩
      · obtain rfl : moved = true := by simpa using h
        rfl
      · simp [steps, isClosed, ← List.append_assoc]

theorem isClosed_draw (d : Draft K) (c : Construction K) : (d.draw c).isClosed = d.isClosed := rfl

theorem outlines_concat [Scalar K] (front : List (Draft K)) (d : Draft K) :
    outlines (front ++ [d]) = outlines front ++ if d.isClosed then [d.outline] else [] := by
  unfold outlines
  rw [List.filter_append, List.map_append, List.filter_singleton]
  cases d.isClosed <;> rfl

theorem chains_concat (front : List (Draft K)) (d : Draft K) :
    chains (front ++ [d]) =
      chains front ++ if d.isClosed && !d.chain.isEmpty then [d.chain] else [] := by
  unfold chains
  rw [List.filter_append, List.map_append, List.filter_append, List.filter_singleton]
  cases d.isClosed with
  | false => rfl
  | true =>
      rw [Bool.true_and, cond_true, List.map_singleton, List.filter_singleton]
      cases d.chain.isEmpty <;> rfl

/-- A closed polyline ends at its start, or at a point that compares as equal to it. -/
theorem exists_getLast?_outline [Scalar K] (d : Draft K) :
    ∃ last, d.outline.getLast? = some last ∧ (last = d.start ∨ (last == d.start) = true) := by
  have hlast : d.vertices.getLast? =
      some ((d.pieces.filterMap Construction.lineStop?).getLast?.getD d.start) :=
    List.getLast?_cons
  unfold outline
  split
  · exact ⟨d.start, List.getLast?_concat, Or.inl rfl⟩
  · next heq =>
      rw [List.append_nil]
      exact ⟨_, hlast, Or.inr (by simpa [bne] using heq)⟩

theorem ledBack_vertices [Scalar K] (d : Draft K) :
    Path.ledBack (some d.start) d.vertices = d.outline := by
  have hlast : d.vertices.getLast? =
      some ((d.pieces.filterMap Construction.lineStop?).getLast?.getD d.start) :=
    List.getLast?_cons
  unfold Path.ledBack outline
  rw [hlast]
  dsimp only
  split
  · rfl
  · exact (List.append_nil _).symm

end Draft

/-- **Steps cut into drafts.**  The drafts are those of the steps in order, and each of them begins
with a move or goes on after a closing; their pieces are lines, or they are curves. -/
structure Drafted (kind : SubpathKind) (steps : List (Construction K)) (drafts : List (Draft K)) :
    Prop where
  flatMap_steps : drafts.flatMap Draft.steps = steps
  head_moved : ∀ d, drafts.head? = some d → d.moved = true
  follows : drafts.IsChain Draft.Follows
  draws : ∀ d ∈ drafts, ∀ c ∈ d.pieces, c.draws kind = true

namespace Drafted

variable {kind : SubpathKind} {steps : List (Construction K)} {front : List (Draft K)} {d : Draft K}

theorem begun (kind : SubpathKind) (p : Point K) :
    Drafted kind [.moveTo p] [.begun p] where
  flatMap_steps := rfl
  head_moved := by
    rintro _ ⟨⟩
    rfl
  follows := .singleton _
  draws := by simp [Draft.begun]

/-- The steps of a draft that comes after the last one add this draft. -/
theorem concat (h : Drafted kind steps (front ++ [d])) {e : Draft K} (hfollows : d.Follows e)
    (hdraws : ∀ c ∈ e.pieces, c.draws kind = true) :
    Drafted kind (steps ++ e.steps) (front ++ [d] ++ [e]) where
  flatMap_steps := by
    rw [List.flatMap_append, h.flatMap_steps, List.flatMap_singleton]
  head_moved := by
    rw [List.head?_append_of_ne_nil _ (by simp)]
    exact h.head_moved
  follows := by
    refine List.isChain_append.2 ⟨h.follows, .singleton _, ?_⟩
    rintro x hx y ⟨⟩
    obtain rfl : d = x := by simpa using hx
    exact hfollows
  draws := by
    intro x hx
    rcases List.mem_append.1 hx with hx | hx
    · exact h.draws x hx
    · obtain rfl := List.mem_singleton.1 hx
      exact hdraws

/-- The last draft grows by a step. -/
theorem extend (h : Drafted kind steps (front ++ [d])) {e : Draft K} {c : Construction K}
    (hsteps : e.steps = d.steps ++ [c]) (hstart : e.start = d.start) (hmoved : e.moved = d.moved)
    (hpieces : d.pieces ≠ [] → e.pieces ≠ []) (hdraws : ∀ c ∈ e.pieces, c.draws kind = true) :
    Drafted kind (steps ++ [c]) (front ++ [e]) where
  flatMap_steps := by
    rw [← h.flatMap_steps, List.flatMap_append, List.flatMap_append, List.flatMap_singleton,
      List.flatMap_singleton, hsteps, List.append_assoc]
  head_moved := by
    cases front with
    | nil =>
        rintro _ ⟨⟩
        exact hmoved.trans (h.head_moved d rfl)
    | cons x front => exact h.head_moved
  follows := by
    obtain ⟨hfront, -, hlast⟩ := List.isChain_append.1 h.follows
    refine List.isChain_append.2 ⟨hfront, .singleton _, ?_⟩
    rintro x hx y ⟨⟩
    rcases hlast x hx d rfl with hd | ⟨hclosed, hd, hne⟩
    · exact Or.inl (hmoved.trans hd)
    · exact Or.inr ⟨hclosed, hstart.trans hd, hpieces hne⟩
  draws := by
    intro x hx
    rcases List.mem_append.1 hx with hx | hx
    · exact h.draws x (List.mem_append_left _ hx)
    · obtain rfl := List.mem_singleton.1 hx
      exact hdraws

theorem draws_last (h : Drafted kind steps (front ++ [d])) : ∀ c ∈ d.pieces, c.draws kind = true :=
  h.draws d (by simp)

theorem concat_moveTo (h : Drafted kind steps (front ++ [d])) (p : Point K) :
    Drafted kind (steps ++ [.moveTo p]) (front ++ [d] ++ [.begun p]) :=
  h.concat (e := .begun p) (Or.inl rfl) (by simp [Draft.begun])

theorem concat_draw (h : Drafted kind steps (front ++ [d])) {c : Construction K}
    (hc : c.draws kind = true) (hopen : d.isClosed = false) :
    Drafted kind (steps ++ [c]) (front ++ [d.draw c]) := by
  refine h.extend (Draft.steps_draw hopen c) rfl rfl (by simp [Draft.draw]) fun b hb => ?_
  rcases List.mem_append.1 hb with hb | hb
  · exact h.draws_last b hb
  · obtain rfl := List.mem_singleton.1 hb
    exact hc

theorem concat_again (h : Drafted kind steps (front ++ [d])) {c : Construction K}
    (hc : c.draws kind = true) (hclosed : d.isClosed = true) :
    Drafted kind (steps ++ [c]) (front ++ [d] ++ [d.again c]) := by
  refine h.concat (e := d.again c) (Or.inr ⟨hclosed, rfl, List.cons_ne_nil c []⟩) fun b hb => ?_
  obtain rfl := List.mem_singleton.1 hb
  exact hc

theorem concat_closePath (h : Drafted kind steps (front ++ [d])) :
    Drafted kind (steps ++ [.closePath]) (front ++ [d.close]) :=
  h.extend d.steps_close rfl rfl id h.draws_last

/-- A draft begins with a move, or something is drawn. -/
theorem moved_or_pieces (h : Drafted kind steps (front ++ [d])) :
    d.moved = true ∨ d.pieces ≠ [] := by
  rcases List.eq_nil_or_concat front with rfl | ⟨front, e, rfl⟩
  · exact Or.inl (h.head_moved d rfl)
  · rw [List.concat_eq_append] at h
    exact ((List.isChain_append.1 h.follows).2.2 e (by simp) d rfl).imp_right fun hd => hd.2.2

/-- The last step is the last one of the last draft. -/
theorem getLast?_eq (h : Drafted kind steps (front ++ [d])) :
    steps.getLast? =
      some (if d.isClosed then .closePath else d.pieces.getLast?.getD (.moveTo d.start)) := by
  rw [← h.flatMap_steps, List.flatMap_append, List.flatMap_singleton, List.getLast?_append,
    Draft.getLast?_steps h.moved_or_pieces]
  rfl

/-- The last draft is closed exactly if the last step is a closing. -/
theorem isClosed_iff (h : Drafted kind steps (front ++ [d])) :
    d.isClosed = true ↔ steps.getLast? = some .closePath := by
  rw [h.getLast?_eq]
  cases hclosed : d.isClosed with
  | true => simp
  | false =>
      have hdraws := h.draws_last
      rcases List.eq_nil_or_concat d.pieces with hnil | ⟨pieces, c, hpieces⟩
      · simp [hnil]
      · have hc : c.draws kind = true := hdraws c (by simp [hpieces])
        have hne : c ≠ .closePath := by
          rintro rfl
          cases kind <;> cases hc
        simp [hpieces, hne]

/-- A draft that is followed by another one is closed, or this one begins with a move. -/
theorem moved_of_not_isClosed {e : Draft K} {back : List (Draft K)}
    (h : Drafted kind steps (front ++ d :: e :: back)) (hopen : d.isClosed = false) :
    e.moved = true := by
  have hchain := (List.isChain_append.1 h.follows).2.1
  rcases (List.isChain_cons_cons.1 hchain).1 with hmoved | ⟨hclosed, -⟩
  · exact hmoved
  · rw [hopen] at hclosed
    cases hclosed

/-- The first drafts are those of the first steps. -/
theorem left {drafts back : List (Draft K)} (h : Drafted kind steps (drafts ++ back)) :
    Drafted kind (drafts.flatMap Draft.steps) drafts where
  flatMap_steps := rfl
  head_moved d hd := h.head_moved d (by rw [List.head?_append, hd]; rfl)
  follows := (List.isChain_append.1 h.follows).1
  draws d hd := h.draws d (List.mem_append_left _ hd)

/-- The moves of a draft are the one that it begins with. -/
theorem filterMap_movedTo? {d : Draft K} (hdraws : ∀ c ∈ d.pieces, c.draws kind = true) :
    d.steps.filterMap Construction.movedTo? = if d.moved then [d.start] else [] := by
  have hpieces : d.pieces.filterMap Construction.movedTo? = [] :=
    List.filterMap_eq_nil_iff.2 fun c hc => Construction.movedTo?_of_draws (hdraws c hc)
  have hclosings : (List.replicate d.closings (.closePath : Construction K)).filterMap
      Construction.movedTo? = [] := by
    simp [Construction.movedTo?]
  unfold Draft.steps
  rw [List.filterMap_append, List.filterMap_append, hpieces, hclosings]
  cases d.moved <;> rfl

/-- The last draft starts where the last move has led. -/
theorem start_eq (h : Drafted kind steps (front ++ [d])) :
    (steps.filterMap Construction.movedTo?).getLast? = some d.start := by
  induction front using List.reverseRecOn generalizing d steps with
  | nil =>
      have hmoved : d.moved = true := h.head_moved d rfl
      rw [← h.flatMap_steps, List.nil_append, List.flatMap_singleton,
        filterMap_movedTo? h.draws_last, if_pos hmoved]
      rfl
  | append_singleton front e ih =>
      have hbefore := ih h.left
      rw [← h.flatMap_steps, List.flatMap_append, List.flatMap_singleton, List.filterMap_append,
        filterMap_movedTo? h.draws_last, List.getLast?_append, hbefore]
      cases hmoved : d.moved with
      | true => rfl
      | false =>
          -- a draft that goes on after a closing has no move, and the start of the one before it
          have hfollows : e.Follows d :=
            (List.isChain_append.1 h.follows).2.2 e (by simp) d rfl
          rcases hfollows with hd | ⟨-, hstart, -⟩
          · rw [hmoved] at hd
            cases hd
          · rw [hstart]
            rfl

/-- **What is kept while drafts grow** holds of every path that begins with a move and goes on with
steps of one kind. -/
theorem exists_of_run [Scalar K] (hkind : kind ≠ .rectangle)
    {P : List (Draft K) → Draft K → Path K → Prop}
    (hfirst : ∀ p, P [] (.begun p) ((Path.empty : Path K).moveTo p))
    (hmove : ∀ front d path p, P front d path → P (front ++ [d]) (.begun p) (path.moveTo p))
    (hdraw : ∀ front d path c, c.draws kind = true → d.isClosed = false → P front d path →
      P front (d.draw c) (path.step c))
    (hagain : ∀ front d path c, c.draws kind = true → d.isClosed = true → P front d path →
      P (front ++ [d]) (d.again c) (path.step c))
    (hclose : ∀ front d path, P front d path → P front d.close path.closePath)
    (p : Point K) {steps : List (Construction K)} (h : ∀ c ∈ steps, c.builds kind = true) :
    ∃ front d, Drafted kind (.moveTo p :: steps) (front ++ [d]) ∧
      P front d ((Path.empty : Path K).run (.moveTo p :: steps)) := by
  induction steps using List.reverseRecOn with
  | nil => exact ⟨[], .begun p, begun kind p, hfirst p⟩
  | append_singleton steps c ih =>
      obtain ⟨front, d, hdrafted, hP⟩ := ih fun b hb => h b (List.mem_append_left _ hb)
      have hc : c.builds kind = true := h c (by simp)
      rw [← List.cons_append, Path.run_append, Path.run_cons, Path.run_nil]
      rcases Construction.builds_cases hkind hc with ⟨q, rfl⟩ | rfl | hdraws
      · exact ⟨_, _, hdrafted.concat_moveTo q, hmove front d _ q hP⟩
      · exact ⟨_, _, hdrafted.concat_closePath, hclose front d _ hP⟩
      · cases hclosed : d.isClosed with
        | false =>
            exact ⟨_, _, hdrafted.concat_draw hdraws hclosed, hdraw front d _ c hdraws hclosed hP⟩
        | true =>
            exact ⟨_, _, hdrafted.concat_again hdraws hclosed, hagain front d _ c hdraws hclosed hP⟩

end Drafted

namespace Path

/-! ### Lines -/

section Lines

variable [Scalar K]

/-- The path holds the polylines that its drafts ask for, `d` being the last of them. -/
structure HoldsLines (front : List (Draft K)) (d : Draft K) (path : Path K) : Prop where
  active : path.active = some .lines
  start : path.start = some d.start
  current : d.isClosed = true → path.current = some d.start
  opened : path.lines.opened = if d.isClosed then [] else d.vertices
  closed : path.lines.closed = Draft.outlines (front ++ [d])

namespace HoldsLines

variable {front : List (Draft K)} {d : Draft K} {path : Path K}

theorem moveTo (h : path.HoldsLines front d) (p : Point K) :
    (path.moveTo p).HoldsLines (front ++ [d]) (.begun p) where
  active := rfl
  start := rfl
  current := nofun
  opened := rfl
  closed := by
    rw [Draft.outlines_concat, ← h.closed]
    exact (List.append_nil _).symm

theorem lineTo_draw (h : path.HoldsLines front d) (hopen : d.isClosed = false) (p : Point K) :
    (path.lineTo p).HoldsLines front (d.draw (.lineTo p)) where
  active := rfl
  start := h.start
  current hclosed := by
    rw [Draft.isClosed_draw, hopen] at hclosed
    cases hclosed
  opened := by
    have hopened := h.opened
    rw [hopen] at hopened
    rw [Draft.isClosed_draw, hopen]
    unfold lineTo drawn
    dsimp only
    rw [hopened]
    simp [Draft.vertices, Draft.draw, Construction.lineStop?]
  closed := by
    have hclosed := h.closed
    rw [Draft.outlines_concat, hopen] at hclosed
    rw [Draft.outlines_concat, Draft.isClosed_draw, hopen]
    exact hclosed

theorem lineTo_again (h : path.HoldsLines front d) (hclosed : d.isClosed = true) (p : Point K) :
    (path.lineTo p).HoldsLines (front ++ [d]) (d.again (.lineTo p)) where
  active := rfl
  start := h.start
  current := nofun
  opened := by
    have hopened := h.opened
    rw [hclosed] at hopened
    unfold lineTo drawn
    dsimp only
    rw [hopened, h.current hclosed]
    rfl
  closed := by
    rw [Draft.outlines_concat, ← h.closed]
    exact (List.append_nil _).symm

theorem closePath (h : path.HoldsLines front d) : path.closePath.HoldsLines front d.close := by
  rw [closePath_of_lines h.active, h.start, Buffer.close_eq]
  refine ⟨h.active, rfl, fun _ => rfl, by rw [d.isClosed_close]; rfl, ?_⟩
  have hclosed := h.closed
  rw [Draft.outlines_concat] at hclosed
  rw [Draft.outlines_concat, d.isClosed_close]
  dsimp only
  rw [hclosed, h.opened]
  cases d.isClosed with
  | true =>
      -- a closing more finds nothing to close
      exact List.append_nil _
  | false =>
      rw [List.append_assoc]
      simp only [Bool.false_eq_true, if_false, d.ledBack_vertices]
      rfl

end HoldsLines

/-- A path of lines **holds what its drafts ask for**. -/
theorem exists_holdsLines (p : Point K) {steps : List (Construction K)}
    (h : ∀ c ∈ steps, c.builds .lines = true) :
    ∃ front d, Drafted .lines (.moveTo p :: steps) (front ++ [d]) ∧
      ((empty : Path K).run (.moveTo p :: steps)).HoldsLines front d := by
  refine Drafted.exists_of_run (nofun : SubpathKind.lines ≠ .rectangle)
    (P := fun front d path => path.HoldsLines front d)
    (fun _ => ⟨rfl, rfl, nofun, rfl, rfl⟩) (fun _ _ _ p hP => hP.moveTo p)
    (fun _ _ _ c hc hopen hP => ?_) (fun _ _ _ c hc hclosed hP => ?_)
    (fun _ _ _ hP => hP.closePath) p h
  · cases c with
    | lineTo q => exact hP.lineTo_draw hopen q
    | _ => cases hc
  · cases c with
    | lineTo q => exact hP.lineTo_again hclosed q
    | _ => cases hc

end Lines

/-! ### Curves -/

section Curves

/-- The path holds the chains of curves that its drafts ask for, `d` being the last of them.
Before the first curve of a draft the active kind is that of the move. -/
structure HoldsCurves (front : List (Draft K)) (d : Draft K) (path : Path K) : Prop where
  active : path.active = some (if d.chain.isEmpty then .lines else .curves)
  start : path.start = some d.start
  current : path.current =
    some (if d.isClosed then d.start else Construction.stopOf d.start d.chain)
  opened : path.curves.opened = if d.isClosed then [] else d.chain
  closed : path.curves.closed = Draft.chains (front ++ [d])

/-- A curve from the current point joins the open chain. -/
theorem step_of_segment? [Scalar K] {path : Path K} {c : Construction K} {q : Point K}
    {s : Segment K} (hcurrent : path.current = some q) (hs : c.segment? q = some s) :
    path.step c = { path with curves := path.curves.push s }.drawn .curves s.stop := by
  cases c with
  | curveTo | curveIntoStop =>
      cases hs
      simp only [step, curveIntoStop, curveTo, hcurrent]
  | curveFromCurrent =>
      cases hs
      simp only [step, curveFromCurrent, curveTo, hcurrent]
  | _ => cases hs

namespace HoldsCurves

variable {front : List (Draft K)} {d : Draft K} {path : Path K}

theorem moveTo (h : path.HoldsCurves front d) (p : Point K) :
    (path.moveTo p).HoldsCurves (front ++ [d]) (.begun p) where
  active := rfl
  start := rfl
  current := rfl
  opened := rfl
  closed := by
    rw [Draft.chains_concat, ← h.closed]
    exact (List.append_nil _).symm

variable [Scalar K]

theorem curve_draw (h : path.HoldsCurves front d) (hopen : d.isClosed = false)
    {c : Construction K} (hc : c.isCurve = true) :
    (path.step c).HoldsCurves front (d.draw c) := by
  have hcurrent := h.current
  rw [hopen] at hcurrent
  obtain ⟨s, hs⟩ := Construction.exists_segment? hc (Construction.stopOf d.start d.chain)
  have hchain : (d.draw c).chain = d.chain ++ [s] :=
    (Construction.chainFrom_concat d.start d.pieces c).trans
      (congrArg (fun t => d.chain ++ Option.toList t) hs)
  have hclosed := h.closed
  rw [Draft.chains_concat, hopen] at hclosed
  rw [step_of_segment? hcurrent hs]
  refine ⟨?_, h.start, ?_, ?_, ?_⟩
  · rw [hchain]
    simp [drawn]
  · rw [Draft.isClosed_draw, hopen, hchain]
    simp [drawn, Construction.stopOf]
  · rw [Draft.isClosed_draw, hopen, hchain]
    have hopened := h.opened
    rw [hopen] at hopened
    exact congrArg (· ++ [s]) hopened
  · rw [Draft.chains_concat, Draft.isClosed_draw, hopen]
    exact hclosed

theorem curve_again (h : path.HoldsCurves front d) (hclosed : d.isClosed = true)
    {c : Construction K} (hc : c.isCurve = true) :
    (path.step c).HoldsCurves (front ++ [d]) (d.again c) := by
  have hcurrent := h.current
  rw [hclosed] at hcurrent
  obtain ⟨s, hs⟩ := Construction.exists_segment? hc d.start
  have hchain : (d.again c).chain = [s] :=
    (Construction.chainFrom_singleton d.start c).trans (congrArg Option.toList hs)
  rw [step_of_segment? hcurrent hs]
  refine ⟨?_, h.start, ?_, ?_, ?_⟩
  · rw [hchain]
    rfl
  · rw [hchain]
    rfl
  · have hopened := h.opened
    rw [hclosed] at hopened
    rw [hchain]
    exact congrArg (· ++ [s]) hopened
  · rw [Draft.chains_concat, ← h.closed]
    exact (List.append_nil _).symm

theorem closePath (h : path.HoldsCurves front d) : path.closePath.HoldsCurves front d.close := by
  have hsame : d.close.chain = d.chain := rfl
  have hactive := h.active
  have hopened := h.opened
  have hclosed := h.closed
  rw [Draft.chains_concat] at hclosed
  cases hchain : d.chain.isEmpty with
  | true =>
      -- only a move is closed, which is no curve
      rw [hchain] at hactive hclosed
      rw [closePath_of_lines hactive, h.start]
      refine ⟨h.active, rfl, by rw [d.isClosed_close]; rfl, ?_, ?_⟩
      · rw [d.isClosed_close]
        dsimp only
        rw [hopened, List.isEmpty_iff.1 hchain]
        cases d.isClosed <;> rfl
      · rw [Draft.chains_concat, hsame, hchain]
        dsimp only
        rw [hclosed]
        simp
  | false =>
      rw [hchain] at hactive hclosed
      rw [closePath_of_curves hactive, h.start, Buffer.close_eq]
      refine ⟨h.active, rfl, by rw [d.isClosed_close]; rfl, by rw [d.isClosed_close]; rfl, ?_⟩
      rw [Draft.chains_concat, d.isClosed_close, hsame, hchain]
      dsimp only
      rw [hclosed, Buffer.opened?, hopened]
      cases d.isClosed with
      | true => exact List.append_nil _
      | false => simp [hchain]

end HoldsCurves

/-- A path of curves **holds what its drafts ask for**. -/
theorem exists_holdsCurves [Scalar K] (p : Point K) {steps : List (Construction K)}
    (h : ∀ c ∈ steps, c.builds .curves = true) :
    ∃ front d, Drafted .curves (.moveTo p :: steps) (front ++ [d]) ∧
      ((empty : Path K).run (.moveTo p :: steps)).HoldsCurves front d :=
  Drafted.exists_of_run (nofun : SubpathKind.curves ≠ .rectangle)
    (P := fun front d path => path.HoldsCurves front d)
    (fun _ => ⟨rfl, rfl, rfl, rfl, rfl⟩) (fun _ _ _ p hP => hP.moveTo p)
    (fun _ _ _ _ hc hopen hP => hP.curve_draw hopen hc)
    (fun _ _ _ _ hc hclosed hP => hP.curve_again hclosed hc) (fun _ _ _ hP => hP.closePath) p h

end Curves

/-! ### What is handed over -/

section HandedOver

variable [Scalar K] {front : List (Draft K)} {d : Draft K} {path : Path K}

theorem HoldsLines.pending?_eq (h : path.HoldsLines front d) :
    path.pending? = some ⟨.lines, (Draft.outlines (front ++ [d])).map .lines,
      if d.isClosed then none else some (.lines d.vertices)⟩ := by
  refine pending?_eq_some_iff.2 ⟨.lines, h.active, ?_, ?_⟩
  · unfold held Buffer.opened?
    rw [h.closed, h.opened]
    cases d.isClosed <;> rfl
  · rw [Draft.outlines_concat]
    cases d.isClosed <;> simp

/-- A closing finds an open polyline exactly if the last draft is not closed. -/
theorem HoldsLines.isSome_closes (h : path.HoldsLines front d) :
    (path.closes .lines .closePath).isSome = !d.isClosed := by
  rw [closes, if_pos h.active, Option.isSome_map, held, Option.isSome_map, Buffer.isSome_opened?,
    h.opened]
  cases d.isClosed <;> rfl

omit [Scalar K] in
theorem HoldsCurves.pending?_eq (h : path.HoldsCurves front d) (hchain : d.chain ≠ []) :
    path.pending? = some ⟨.curves, (Draft.chains (front ++ [d])).map .curves,
      if d.isClosed then none else some (.curves d.chain)⟩ := by
  have hne : d.chain.isEmpty = false := by simpa using hchain
  have hactive := h.active
  rw [hne] at hactive
  refine pending?_eq_some_iff.2 ⟨.curves, hactive, ?_, ?_⟩
  · unfold held Buffer.opened?
    rw [h.closed, h.opened]
    cases d.isClosed <;> simp [hne]
  · rw [Draft.chains_concat, hne]
    cases d.isClosed <;> simp

/-- A closing finds an open chain exactly if the last draft is not closed and has curves. -/
theorem HoldsCurves.isSome_closes (h : path.HoldsCurves front d) :
    (path.closes .curves .closePath).isSome = (!d.isClosed && !d.chain.isEmpty) := by
  cases hchain : d.chain.isEmpty with
  | true =>
      have hactive : path.active = some .lines := by rw [h.active, hchain]; rfl
      rw [closes, if_neg (by simp [hactive])]
      simp
  | false =>
      have hactive : path.active = some .curves := by rw [h.active, hchain]; rfl
      rw [closes, if_pos hactive, Option.isSome_map, held, Option.isSome_map,
        Buffer.isSome_opened?, h.opened]
      cases d.isClosed <;> simp [hchain]

/-- After a curve, and any closings of it, curves are active. -/
theorem active_run_closings {c : Construction K} (hc : c.isCurve = true) {q : Point K}
    (hcurrent : path.current = some q) (n : Nat) :
    (path.run (c :: List.replicate n .closePath)).active = some .curves := by
  have hclosings : ∀ path : Path K,
      (path.run (List.replicate n .closePath)).active = path.active := by
    induction n with
    | zero => exact fun _ => rfl
    | succ n ih => exact fun path => (ih path.closePath).trans (active_closePath path)
  obtain ⟨s, hs⟩ := Construction.exists_segment? hc q
  rw [run_cons, hclosings, step_of_segment? hcurrent hs]
  rfl

/-- A closing finds an open polyline exactly if the step before it is not a closing. -/
theorem isSome_closes_lines_iff (p : Point K) {steps : List (Construction K)}
    (h : ∀ c ∈ steps, c.builds .lines = true) :
    (((empty : Path K).run (.moveTo p :: steps)).closes .lines .closePath).isSome = true ↔
      (Construction.moveTo p :: steps).getLast? ≠ some .closePath := by
  obtain ⟨front, d, hdrafted, hholds⟩ := exists_holdsLines p h
  rw [hholds.isSome_closes, ne_eq, ← hdrafted.isClosed_iff]
  cases d.isClosed <;> simp

/-- A closing finds an open chain exactly if the step before it is a curve. -/
theorem isSome_closes_curves_iff (p : Point K) {steps : List (Construction K)}
    (h : ∀ c ∈ steps, c.builds .curves = true) :
    (((empty : Path K).run (.moveTo p :: steps)).closes .curves .closePath).isSome = true ↔
      ∃ c, (Construction.moveTo p :: steps).getLast? = some c ∧ c.isCurve = true := by
  obtain ⟨front, d, hdrafted, hholds⟩ := exists_holdsCurves p h
  have hcurves : ∀ c ∈ d.pieces, c.isCurve = true := hdrafted.draws_last
  rw [hholds.isSome_closes, hdrafted.getLast?_eq]
  cases d.isClosed with
  | true => simp [Construction.isCurve]
  | false =>
      rcases List.eq_nil_or_concat d.pieces with hnil | ⟨pieces, c, hpieces⟩
      · have hchain : d.chain = [] := (Construction.chainFrom_eq_nil_iff hcurves _).2 hnil
        simp [hchain, hnil, Construction.isCurve]
      · have hne : d.chain ≠ [] := fun hchain => by
          rw [(Construction.chainFrom_eq_nil_iff hcurves _).1 hchain] at hpieces
          simp at hpieces
        have hc : c.isCurve = true := hcurves c (by simp [hpieces])
        simp [hne, hpieces, hc]

/-- **Paths of one kind are decomposed exactly.**  The steps of a path of lines are cut into drafts;
the closed subpaths are the polylines of the drafts with a closing, in order, and the open one is the
polyline of a last draft without one.  The same holds of a path of curves that ends with a curve, up
to closings, with the chains that the drafts draw.  A draft starts where the last move has led, and
one without a closing is lost **only if a move follows**. -/
theorem pending?_run_drafts (s : Point K) :
    (∀ steps : List (Construction K), (∀ c ∈ steps, c.builds .lines = true) →
      ∃ front d, Drafted .lines (.moveTo s :: steps) (front ++ [d]) ∧
        ((empty : Path K).run (.moveTo s :: steps)).pending? =
          some ⟨.lines, (Draft.outlines (front ++ [d])).map .lines,
            if d.isClosed then none else some (.lines d.vertices)⟩ ∧
        ∀ before, .moveTo s :: (before ++ [.closePath]) <+: .moveTo s :: steps →
          ((((empty : Path K).run (.moveTo s :: before)).closes .lines .closePath).isSome = true ↔
            (Construction.moveTo s :: before).getLast? ≠ some .closePath)) ∧
    (∀ (early : List (Construction K)) (c : Construction K) (n : Nat),
      (∀ b ∈ early, b.builds .curves = true) → c.isCurve = true →
      let steps := early ++ c :: List.replicate n .closePath
      ∃ front d, Drafted .curves (.moveTo s :: steps) (front ++ [d]) ∧
        ((empty : Path K).run (.moveTo s :: steps)).pending? =
          some ⟨.curves, (Draft.chains (front ++ [d])).map .curves,
            if d.isClosed then none else some (.curves d.chain)⟩ ∧
        ∀ before, .moveTo s :: (before ++ [.closePath]) <+: .moveTo s :: steps →
          ((((empty : Path K).run (.moveTo s :: before)).closes .curves .closePath).isSome = true ↔
            ∃ b, (Construction.moveTo s :: before).getLast? = some b ∧ b.isCurve = true)) ∧
    (∀ (kind : SubpathKind) (steps : List (Construction K)) (front : List (Draft K)) (d : Draft K)
      (back : List (Draft K)), Drafted kind steps (front ++ d :: back) →
      (((front ++ [d]).flatMap Draft.steps).filterMap Construction.movedTo?).getLast? =
        some d.start ∧
      (d.isClosed = false → ∀ e, back.head? = some e → e.moved = true)) ∧
    ∀ d : Draft K, d.outline.head? = some d.start ∧
      ∃ last, d.outline.getLast? = some last ∧ (last = d.start ∨ (last == d.start) = true) := by
  have hbefore : ∀ {before steps : List (Construction K)},
      .moveTo s :: (before ++ [.closePath]) <+: .moveTo s :: steps → ∀ c ∈ before, c ∈ steps := by
    intro before steps hprefix c hc
    have htail := (List.cons_prefix_cons.1 hprefix).2
    exact htail.subset (List.mem_append_left _ hc)
  refine ⟨fun steps h => ?_, fun early c n hearly hc => ?_, fun kind steps front d back h => ?_,
    fun d => ⟨rfl, d.exists_getLast?_outline⟩⟩
  · obtain ⟨front, d, hdrafted, hholds⟩ := exists_holdsLines s h
    refine ⟨front, d, hdrafted, hholds.pending?_eq, fun before hprefix => ?_⟩
    exact isSome_closes_lines_iff s fun c hc => h c (hbefore hprefix c hc)
  · have h : ∀ b ∈ early ++ c :: List.replicate n .closePath, b.builds .curves = true := by
      intro b hb
      rcases List.mem_append.1 hb with hb | hb
      · exact hearly b hb
      rcases List.mem_cons.1 hb with rfl | hb
      · cases b with
        | curveTo | curveFromCurrent | curveIntoStop => rfl
        | _ => cases hc
      · rw [List.eq_of_mem_replicate hb]
        rfl
    obtain ⟨front, d, hdrafted, hholds⟩ := exists_holdsCurves s h
    -- the last curve leaves curves active, so the last draft has one
    obtain ⟨_, _, -, hearly⟩ := exists_holdsCurves s hearly
    have hactive := active_run_closings hc hearly.current n
    rw [← Path.run_append, List.cons_append, hholds.active] at hactive
    have hchain : d.chain ≠ [] := by
      intro hnil
      rw [hnil] at hactive
      cases hactive
    refine ⟨front, d, hdrafted, hholds.pending?_eq hchain, fun before hprefix => ?_⟩
    exact isSome_closes_curves_iff s fun b hb => h b (hbefore hprefix b hb)
  · rw [List.append_cons] at h
    refine ⟨h.left.start_eq, fun hopen e he => ?_⟩
    obtain ⟨back, rfl⟩ := List.head?_eq_some_iff.1 he
    rw [List.append_assoc] at h
    exact h.moved_of_not_isClosed hopen

end HandedOver

/-- A triangle that is closed twice, a line that goes on from there and is abandoned, and a line
elsewhere. -/
def triangleAndLines : List (Construction Float) :=
  [.lineTo ⟨1, 0⟩, .lineTo ⟨1, 1⟩, .closePath, .closePath, .lineTo ⟨2, 0⟩, .moveTo ⟨5, 5⟩,
    .lineTo ⟨6, 5⟩]

/-- The triangle that is closed twice. -/
def closedTriangle : Draft Float :=
  ⟨⟨0, 0⟩, true, [.lineTo ⟨1, 0⟩, .lineTo ⟨1, 1⟩], 2⟩

/-- The line that is abandoned. -/
def abandonedLine : Draft Float :=
  ⟨⟨0, 0⟩, false, [.lineTo ⟨2, 0⟩], 0⟩

/-- The line that is left open. -/
def lineElsewhere : Draft Float :=
  ⟨⟨5, 5⟩, true, [.lineTo ⟨6, 5⟩], 0⟩

/-- A move that is closed, and a curve after that. -/
def closedMoveAndCurve : List (Construction Float) :=
  [.closePath, .curveIntoStop ⟨0, 1⟩ ⟨1, 1⟩]

theorem drafted_triangleAndLines :
    Drafted .lines (.moveTo ⟨0, 0⟩ :: triangleAndLines)
      [closedTriangle, abandonedLine, lineElsewhere] where
  flatMap_steps := rfl
  head_moved := by
    rintro _ ⟨⟩
    rfl
  follows := .cons_cons (Or.inr ⟨rfl, rfl, nofun⟩) (.cons_cons (Or.inl rfl) (.singleton _))
  draws := by decide +kernel

theorem pending?_run_drafts_triangleAndLines :
    let lines : List (Construction Float) := .moveTo ⟨0, 0⟩ :: triangleAndLines
    let curves : List (Construction Float) :=
      .moveTo ⟨0, 0⟩ :: (closedMoveAndCurve ++ .curveTo ⟨2, 1⟩ ⟨2, 0⟩ ⟨1, 0⟩ :: [.closePath])
    (∃ front d, Drafted .lines lines (front ++ [d]) ∧
        ((empty : Path Float).run lines).pending? =
          some ⟨.lines, (Draft.outlines (front ++ [d])).map .lines,
            if d.isClosed then none else some (.lines d.vertices)⟩) ∧
      (((empty : Path Float).run (lines.take 3)).closes .lines .closePath).isSome = true ∧
      (((empty : Path Float).run (lines.take 4)).closes .lines .closePath).isSome = false ∧
      (∃ front d, Drafted .curves curves (front ++ [d]) ∧
        ((empty : Path Float).run curves).pending? =
          some ⟨.curves, (Draft.chains (front ++ [d])).map .curves,
            if d.isClosed then none else some (.curves d.chain)⟩) ∧
      (((empty : Path Float).run (curves.take 1)).closes .curves .closePath).isSome = false ∧
      ((lines.take 6).filterMap Construction.movedTo?).getLast? = some abandonedLine.start ∧
      lineElsewhere.moved = true := by
  intro lines curves
  obtain ⟨hlines, hcurves, hdrafts, -⟩ := pending?_run_drafts (K := Float) ⟨0, 0⟩
  obtain ⟨front, d, hdrafted, hpending, hcloses⟩ := hlines triangleAndLines (by decide +kernel)
  obtain ⟨front', d', hdrafted', hpending', hcloses'⟩ :=
    hcurves closedMoveAndCurve (.curveTo ⟨2, 1⟩ ⟨2, 0⟩ ⟨1, 0⟩) 1 (by decide +kernel) rfl
  obtain ⟨hstart, hmoved⟩ :=
    hdrafts .lines lines [closedTriangle] abandonedLine [lineElsewhere] drafted_triangleAndLines
  have hagain := hcloses (triangleAndLines.take 3) ⟨triangleAndLines.drop 4, rfl⟩
  have hmove := hcloses' [] ⟨_, rfl⟩
  refine ⟨⟨front, d, hdrafted, hpending⟩, (hcloses (triangleAndLines.take 2) ⟨_, rfl⟩).2 nofun,
    ?_, ⟨front', d', hdrafted', hpending'⟩, ?_, hstart, hmoved rfl _ rfl⟩
  · exact Bool.eq_false_iff.2 fun h => hagain.1 h rfl
  · refine Bool.eq_false_iff.2 fun h => ?_
    obtain ⟨_, ⟨⟩, hcurve⟩ := hmove.1 h
    cases hcurve

end Path

end Artwork
