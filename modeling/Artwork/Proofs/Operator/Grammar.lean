import Artwork.Proofs.Operator.Forms
import Artwork.Proofs.Text.Pieces

/-!
**The grammar of lines.**

A line is an operator when its words have one of a few shapes: operands, then a keyword.  The
relation `Operator.Spelling` has one rule for each shape, written out word by word, and says what
the operands become.  A line is read as an operator exactly when its words spell it.

Main definitions:

* `Operator.Spelling` — **the words that spell an operator**, what an operand is being a parameter.

Main results:

* `Operator.spelling_iff_reads` — the shapes are what the forms accept;
* `classify_eq_some_iff` — the reader of lines is sound and complete;
* `classify_isSome_iff` — a line of one of the shapes fails only at digits that are not ASCII;
* `classify_grammar` — **all this for the words as the one way to cut the line**.
-/

set_option relaxedAutoImplicit false
set_option autoImplicit false

namespace Artwork

/-- The words **spell the operator**. -/
inductive Operator.Spelling {K : Type} (operand : List Char → K → Prop) :
    List (List Char) → Operator K → Prop
  | strokeColor {wr wg wb : List Char} {r g b : K} :
      operand wr r → operand wg g → operand wb b →
      Spelling operand [wr, wg, wb, ['R', 'G']] (.strokeColor ⟨r, g, b⟩)
  | fillColor {wr wg wb : List Char} {r g b : K} :
      operand wr r → operand wg g → operand wb b →
      Spelling operand [wr, wg, wb, ['r', 'g']] (.fillColor ⟨r, g, b⟩)
  | transform {wa wb wc wd we wf : List Char} {a b c d e f : K} :
      operand wa a → operand wb b → operand wc c → operand wd d → operand we e → operand wf f →
      Spelling operand [wa, wb, wc, wd, we, wf, ['c', 'm']] (.transform false ⟨a, b, c, d, e, f⟩)
  | saveTransform {wa wb wc wd we wf : List Char} {a b c d e f : K} :
      operand wa a → operand wb b → operand wc c → operand wd d → operand we e → operand wf f →
      Spelling operand [['q'], wa, wb, wc, wd, we, wf, ['c', 'm']]
        (.transform true ⟨a, b, c, d, e, f⟩)
  | save : Spelling operand [['q']] .save
  /-- A restoring is found anywhere on the line. -/
  | restore {ws : List (List Char)} : ['Q'] ∈ ws → Spelling operand ws .restore
  | moveTo {wx wy : List Char} {x y : K} :
      operand wx x → operand wy y → Spelling operand [wx, wy, ['m']] (.construct (.moveTo ⟨x, y⟩))
  | lineTo {wx wy : List Char} {x y : K} :
      operand wx x → operand wy y → Spelling operand [wx, wy, ['l']] (.construct (.lineTo ⟨x, y⟩))
  | curveTo {wx₁ wy₁ wx₂ wy₂ wx₃ wy₃ : List Char} {x₁ y₁ x₂ y₂ x₃ y₃ : K} :
      operand wx₁ x₁ → operand wy₁ y₁ → operand wx₂ x₂ → operand wy₂ y₂ → operand wx₃ x₃ →
      operand wy₃ y₃ →
      Spelling operand [wx₁, wy₁, wx₂, wy₂, wx₃, wy₃, ['c']]
        (.construct (.curveTo ⟨x₁, y₁⟩ ⟨x₂, y₂⟩ ⟨x₃, y₃⟩))
  | curveFromCurrent {wx₂ wy₂ wx₃ wy₃ : List Char} {x₂ y₂ x₃ y₃ : K} :
      operand wx₂ x₂ → operand wy₂ y₂ → operand wx₃ x₃ → operand wy₃ y₃ →
      Spelling operand [wx₂, wy₂, wx₃, wy₃, ['v']]
        (.construct (.curveFromCurrent ⟨x₂, y₂⟩ ⟨x₃, y₃⟩))
  | curveIntoStop {wx₁ wy₁ wx₃ wy₃ : List Char} {x₁ y₁ x₃ y₃ : K} :
      operand wx₁ x₁ → operand wy₁ y₁ → operand wx₃ x₃ → operand wy₃ y₃ →
      Spelling operand [wx₁, wy₁, wx₃, wy₃, ['y']] (.construct (.curveIntoStop ⟨x₁, y₁⟩ ⟨x₃, y₃⟩))
  | rectangle {wx wy ww wh : List Char} {x y w h : K} :
      operand wx x → operand wy y → operand ww w → operand wh h →
      Spelling operand [wx, wy, ww, wh, ['r', 'e']] (.construct (.rectangle ⟨x, y⟩ ⟨w, h⟩))
  | clip : Spelling operand [['W']] (.construct .clip)
  | clipEvenOdd : Spelling operand [['W', '*']] (.construct .clip)
  | clipEnd : Spelling operand [['W'], ['n']] (.construct .clip)
  | clipEvenOddEnd : Spelling operand [['W', '*'], ['n']] (.construct .clip)
  | closePath : Spelling operand [['h']] (.construct .closePath)
  | lineWidth {w : List Char} {width : K} :
      operand w width → Spelling operand [w, ['w']] (.lineWidth width)
  | endPath : Spelling operand [['n']] .endPath
  | stroke : Spelling operand [['S']] .stroke
  | closeStroke : Spelling operand [['s']] .closeStroke
  | fill : Spelling operand [['f']] (.fill .nonzero)
  | fillCapital : Spelling operand [['F']] (.fill .nonzero)
  | fillEvenOdd : Spelling operand [['f', '*']] (.fill .evenOdd)
  | fillStroke : Spelling operand [['B']] (.fillStroke .nonzero)
  | fillStrokeEvenOdd : Spelling operand [['B', '*']] (.fillStroke .evenOdd)
  | closeFillStroke : Spelling operand [['b']] (.closeFillStroke .nonzero)
  | closeFillStrokeEvenOdd : Spelling operand [['b', '*']] (.closeFillStroke .evenOdd)

namespace Form

variable {α : Type} {operand : List Char → α → Prop} {f : Form} {ws : List (List Char)}
  {saving : Bool} {keyword : List Char} {xs : List α}

/-! ### The shapes are what the forms accept -/

/-- The forms that are read in only one way. -/
def IsPlain (f : Form) : Prop :=
  f ≠ restore ∧ f ≠ transform ∧ f ≠ clip

theorem Reads.mem_keywords (h : Reads operand f ws saving keyword xs) (hf : IsPlain f) :
    keyword ∈ f.keywords ∧ ∃ args, ws = args ++ [keyword] ∧ List.Forall₂ operand args xs := by
  obtain ⟨hrestore, htransform, hclip⟩ := hf
  cases h with
  | plain _ hargs _ hkeyword => exact ⟨hkeyword, _, rfl, hargs⟩
  | saving => exact absurd rfl htransform
  | ending => exact absurd rfl hclip
  | restoring => exact absurd rfl hrestore

/-- Words in which such a form finds no operands are one of its keywords. -/
theorem Reads.eq_singleton (h : Reads operand f ws saving keyword []) (hf : IsPlain f) :
    keyword ∈ f.keywords ∧ ws = [keyword] := by
  obtain ⟨hkeyword, args, rfl, hargs⟩ := h.mem_keywords hf
  obtain rfl := List.forall₂_nil_right_iff.1 hargs
  exact ⟨hkeyword, rfl⟩

/-- Words that a form with one keyword only accepts are operands and then this keyword. -/
theorem Reads.exists_args (h : Reads operand f ws saving keyword xs) (hf : IsPlain f)
    {only : List Char} (honly : f.keywords = [only]) :
    ∃ args, ws = args ++ [only] ∧ List.Forall₂ operand args xs := by
  obtain ⟨hkeyword, args, rfl, hargs⟩ := h.mem_keywords hf
  rw [honly] at hkeyword
  obtain rfl := List.mem_singleton.1 hkeyword
  exact ⟨args, rfl, hargs⟩

theorem Reads.eq_keyword (h : Reads operand f ws saving keyword []) (hf : IsPlain f)
    {only : List Char} (honly : f.keywords = [only]) : ws = [only] := by
  obtain ⟨args, rfl, hargs⟩ := h.exists_args hf honly
  obtain rfl := List.forall₂_nil_right_iff.1 hargs
  rfl

theorem Reads.singleton (hf : f ≠ restore) (hnone : f.arity = 0) (hkeyword : keyword ∈ f.keywords) :
    Reads operand f [keyword] false keyword [] :=
  @Reads.plain _ _ f [] [] keyword hf .nil hnone.symm hkeyword

end Form

namespace Operator

variable {K : Type} {operand : List Char → K → Prop} {ws : List (List Char)} {op : Operator K}

/-- What the words spell is found by a form. -/
theorem Spelling.exists_reads (h : Spelling operand ws op) :
    ∃ (f : Form) (saving : Bool) (keyword : List Char) (xs : List K),
      f.Reads operand ws saving keyword xs ∧ f.operator? saving keyword xs = some op := by
  cases h with
  | strokeColor hr hg hb =>
      have hargs := List.Forall₂.cons hr (.cons hg (.cons hb .nil))
      exact ⟨.strokeColor, false, _, _, .plain (by nofun) hargs (by rfl) (by decide), rfl⟩
  | fillColor hr hg hb =>
      have hargs := List.Forall₂.cons hr (.cons hg (.cons hb .nil))
      exact ⟨.fillColor, false, _, _, .plain (by nofun) hargs (by rfl) (by decide), rfl⟩
  | transform ha hb hc hd he hf =>
      have hargs := List.Forall₂.cons ha (.cons hb (.cons hc (.cons hd (.cons he (.cons hf .nil)))))
      exact ⟨.transform, false, _, _, .plain (by nofun) hargs (by rfl) (by decide), rfl⟩
  | saveTransform ha hb hc hd he hf =>
      have hargs := List.Forall₂.cons ha (.cons hb (.cons hc (.cons hd (.cons he (.cons hf .nil)))))
      exact ⟨.transform, true, _, _, .saving hargs rfl, rfl⟩
  | save => exact ⟨.save, false, _, _, .singleton nofun rfl (by decide), rfl⟩
  | restore hrestore => exact ⟨.restore, false, _, _, .restoring hrestore, rfl⟩
  | moveTo hx hy =>
      have hargs := List.Forall₂.cons hx (.cons hy .nil)
      exact ⟨.moveTo, false, _, _, .plain (by nofun) hargs (by rfl) (by decide), rfl⟩
  | lineTo hx hy =>
      have hargs := List.Forall₂.cons hx (.cons hy .nil)
      exact ⟨.lineTo, false, _, _, .plain (by nofun) hargs (by rfl) (by decide), rfl⟩
  | curveTo hx₁ hy₁ hx₂ hy₂ hx₃ hy₃ =>
      have hargs :=
        List.Forall₂.cons hx₁ (.cons hy₁ (.cons hx₂ (.cons hy₂ (.cons hx₃ (.cons hy₃ .nil)))))
      exact ⟨.curveTo, false, _, _, .plain (by nofun) hargs (by rfl) (by decide), rfl⟩
  | curveFromCurrent hx₂ hy₂ hx₃ hy₃ =>
      have hargs := List.Forall₂.cons hx₂ (.cons hy₂ (.cons hx₃ (.cons hy₃ .nil)))
      exact ⟨.curveFromCurrent, false, _, _, .plain (by nofun) hargs (by rfl) (by decide), rfl⟩
  | curveIntoStop hx₁ hy₁ hx₃ hy₃ =>
      have hargs := List.Forall₂.cons hx₁ (.cons hy₁ (.cons hx₃ (.cons hy₃ .nil)))
      exact ⟨.curveIntoStop, false, _, _, .plain (by nofun) hargs (by rfl) (by decide), rfl⟩
  | rectangle hx hy hw hh =>
      have hargs := List.Forall₂.cons hx (.cons hy (.cons hw (.cons hh .nil)))
      exact ⟨.rectangle, false, _, _, .plain (by nofun) hargs (by rfl) (by decide), rfl⟩
  | clip => exact ⟨.clip, false, _, _, .singleton nofun rfl (by decide), rfl⟩
  | clipEvenOdd => exact ⟨.clip, false, _, _, .singleton nofun rfl (by decide), rfl⟩
  | clipEnd => exact ⟨.clip, false, _, _, .ending (by decide), rfl⟩
  | clipEvenOddEnd => exact ⟨.clip, false, _, _, .ending (by decide), rfl⟩
  | closePath => exact ⟨.closePath, false, _, _, .singleton nofun rfl (by decide), rfl⟩
  | lineWidth hw =>
      have hargs := List.Forall₂.cons hw .nil
      exact ⟨.lineWidth, false, _, _, .plain (by nofun) hargs (by rfl) (by decide), rfl⟩
  | endPath => exact ⟨.endPath, false, _, _, .singleton nofun rfl (by decide), rfl⟩
  | stroke => exact ⟨.stroke, false, _, _, .singleton nofun rfl (by decide), rfl⟩
  | closeStroke => exact ⟨.closeStroke, false, _, _, .singleton nofun rfl (by decide), rfl⟩
  | fill => exact ⟨.fill, false, _, _, .singleton nofun rfl (by decide), rfl⟩
  | fillCapital => exact ⟨.fill, false, _, _, .singleton nofun rfl (by decide), rfl⟩
  | fillEvenOdd => exact ⟨.fill, false, _, _, .singleton nofun rfl (by decide), rfl⟩
  | fillStroke => exact ⟨.fillStroke, false, _, _, .singleton nofun rfl (by decide), rfl⟩
  | fillStrokeEvenOdd => exact ⟨.fillStroke, false, _, _, .singleton nofun rfl (by decide), rfl⟩
  | closeFillStroke => exact ⟨.closeFillStroke, false, _, _, .singleton nofun rfl (by decide), rfl⟩
  | closeFillStrokeEvenOdd =>
      exact ⟨.closeFillStroke, false, _, _, .singleton nofun rfl (by decide), rfl⟩

/-- What a form finds is spelled by the words. -/
theorem spelling_of_reads {f : Form} {saving : Bool} {keyword : List Char} {xs : List K}
    (h : f.Reads operand ws saving keyword xs) (hop : f.operator? saving keyword xs = some op) :
    Spelling operand ws op := by
  unfold Form.operator? at hop
  -- one case for each form with the number of its operands, and one for all others, which fail
  split at hop
  all_goals first | cases hop; done | obtain rfl := Option.some.inj hop
  · obtain ⟨args, rfl, hargs⟩ := h.exists_args ⟨nofun, nofun, nofun⟩ rfl
    match hargs with
    | .cons hr (.cons hg (.cons hb .nil)) => exact .strokeColor hr hg hb
  · obtain ⟨args, rfl, hargs⟩ := h.exists_args ⟨nofun, nofun, nofun⟩ rfl
    match hargs with
    | .cons hr (.cons hg (.cons hb .nil)) => exact .fillColor hr hg hb
  · cases h with
    | plain _ hargs _ hkeyword =>
        obtain rfl := List.mem_singleton.1 hkeyword
        match hargs with
        | .cons ha (.cons hb (.cons hc (.cons hd (.cons he (.cons hf .nil))))) =>
          exact .transform ha hb hc hd he hf
    | saving hargs _ =>
        match hargs with
        | .cons ha (.cons hb (.cons hc (.cons hd (.cons he (.cons hf .nil))))) =>
          exact .saveTransform ha hb hc hd he hf
  · obtain rfl := h.eq_keyword ⟨nofun, nofun, nofun⟩ rfl
    exact .save
  · cases h with
    | plain hrestore => exact absurd rfl hrestore
    | restoring hrestore => exact .restore hrestore
  · obtain ⟨args, rfl, hargs⟩ := h.exists_args ⟨nofun, nofun, nofun⟩ rfl
    match hargs with
    | .cons hx (.cons hy .nil) => exact .moveTo hx hy
  · obtain ⟨args, rfl, hargs⟩ := h.exists_args ⟨nofun, nofun, nofun⟩ rfl
    match hargs with
    | .cons hx (.cons hy .nil) => exact .lineTo hx hy
  · obtain ⟨args, rfl, hargs⟩ := h.exists_args ⟨nofun, nofun, nofun⟩ rfl
    match hargs with
    | .cons hx₁ (.cons hy₁ (.cons hx₂ (.cons hy₂ (.cons hx₃ (.cons hy₃ .nil))))) =>
      exact .curveTo hx₁ hy₁ hx₂ hy₂ hx₃ hy₃
  · obtain ⟨args, rfl, hargs⟩ := h.exists_args ⟨nofun, nofun, nofun⟩ rfl
    match hargs with
    | .cons hx₂ (.cons hy₂ (.cons hx₃ (.cons hy₃ .nil))) =>
      exact .curveFromCurrent hx₂ hy₂ hx₃ hy₃
  · obtain ⟨args, rfl, hargs⟩ := h.exists_args ⟨nofun, nofun, nofun⟩ rfl
    match hargs with
    | .cons hx₁ (.cons hy₁ (.cons hx₃ (.cons hy₃ .nil))) => exact .curveIntoStop hx₁ hy₁ hx₃ hy₃
  · obtain ⟨args, rfl, hargs⟩ := h.exists_args ⟨nofun, nofun, nofun⟩ rfl
    match hargs with
    | .cons hx (.cons hy (.cons hw (.cons hh .nil))) => exact .rectangle hx hy hw hh
  · cases h with
    | plain _ hargs _ hkeyword =>
        obtain rfl := List.forall₂_nil_right_iff.1 hargs
        rcases List.mem_pair.1 hkeyword with rfl | rfl
        · exact .clip
        · exact .clipEvenOdd
    | ending hkeyword =>
        rcases List.mem_pair.1 hkeyword with rfl | rfl
        · exact .clipEnd
        · exact .clipEvenOddEnd
  · obtain rfl := h.eq_keyword ⟨nofun, nofun, nofun⟩ rfl
    exact .closePath
  · obtain ⟨args, rfl, hargs⟩ := h.exists_args ⟨nofun, nofun, nofun⟩ rfl
    match hargs with
    | .cons hw .nil => exact .lineWidth hw
  · obtain rfl := h.eq_keyword ⟨nofun, nofun, nofun⟩ rfl
    exact .endPath
  · obtain rfl := h.eq_keyword ⟨nofun, nofun, nofun⟩ rfl
    exact .stroke
  · obtain rfl := h.eq_keyword ⟨nofun, nofun, nofun⟩ rfl
    exact .closeStroke
  · obtain ⟨hkeyword, rfl⟩ := h.eq_singleton ⟨nofun, nofun, nofun⟩
    rcases List.mem_cons.1 hkeyword with rfl | hkeyword
    · exact .fill
    · rcases List.mem_pair.1 hkeyword with rfl | rfl
      · exact .fillCapital
      · exact .fillEvenOdd
  · obtain ⟨hkeyword, rfl⟩ := h.eq_singleton ⟨nofun, nofun, nofun⟩
    rcases List.mem_pair.1 hkeyword with rfl | rfl
    · exact .fillStroke
    · exact .fillStrokeEvenOdd
  · obtain ⟨hkeyword, rfl⟩ := h.eq_singleton ⟨nofun, nofun, nofun⟩
    rcases List.mem_pair.1 hkeyword with rfl | rfl
    · exact .closeFillStroke
    · exact .closeFillStrokeEvenOdd

/-- The shapes of words **are what the forms accept**. -/
theorem spelling_iff_reads :
    Spelling operand ws op ↔
      ∃ (f : Form) (saving : Bool) (keyword : List Char) (xs : List K),
        f.Reads operand ws saving keyword xs ∧ f.operator? saving keyword xs = some op := by
  constructor
  · exact Spelling.exists_reads
  · rintro ⟨f, saving, keyword, xs, h, hop⟩
    exact spelling_of_reads h hop

end Operator

/-! ### Numerals and their values -/

theorem forall₂_isOperand_iff {ws : List (List Char)} {xs : List Float} :
    List.Forall₂ IsOperand ws xs ↔
      ∃ ns, List.Forall₂ Numeral.Spelling ws ns ∧ ns.mapM Numeral.value? = some xs := by
  simp only [Form.mapM_eq_some_iff, Numeral.value?_eq_some_iff]
  constructor
  · intro h
    induction h with
    | nil => exact ⟨[], .nil, .nil⟩
    | cons hx _ ih =>
        obtain ⟨n, hn, hvalue⟩ := hx
        obtain ⟨ns, hns, hvalues⟩ := ih
        exact ⟨n :: ns, .cons hn hns, .cons hvalue hvalues⟩
  · rintro ⟨ns, hns, hvalues⟩
    induction hns generalizing xs with
    | nil =>
        obtain rfl := List.forall₂_nil_left_iff.1 hvalues
        exact .nil
    | cons hn _ ih =>
        obtain ⟨x, xs', hvalue, hvalues', rfl⟩ := List.forall₂_cons_left_iff.1 hvalues
        exact .cons ⟨_, hn, hvalue⟩ (ih hvalues')

namespace Form

variable {f : Form} {ws : List (List Char)} {saving : Bool} {keyword : List Char}

theorem Reads.of_numerals {ns : List Numeral} {xs : List Float}
    (h : f.Reads Numeral.Spelling ws saving keyword ns)
    (hvalues : ns.mapM Numeral.value? = some xs) :
    f.Reads IsOperand ws saving keyword xs := by
  have hlength := (mapM_eq_some_iff.1 hvalues).length_eq
  cases h with
  | plain hf hargs harity hkeyword =>
      exact .plain hf (forall₂_isOperand_iff.2 ⟨ns, hargs, hvalues⟩) (hlength ▸ harity) hkeyword
  | saving hargs harity =>
      exact .saving (forall₂_isOperand_iff.2 ⟨ns, hargs, hvalues⟩) (hlength ▸ harity)
  | ending hkeyword =>
      obtain rfl := List.length_eq_zero_iff.1 hlength.symm
      exact .ending hkeyword
  | restoring hrestore =>
      obtain rfl := List.length_eq_zero_iff.1 hlength.symm
      exact .restoring hrestore

theorem Reads.exists_numerals {xs : List Float} (h : f.Reads IsOperand ws saving keyword xs) :
    ∃ ns, f.Reads Numeral.Spelling ws saving keyword ns ∧ ns.mapM Numeral.value? = some xs := by
  cases h with
  | plain hf hargs harity hkeyword =>
      obtain ⟨ns, hns, hvalues⟩ := forall₂_isOperand_iff.1 hargs
      have hlength := (mapM_eq_some_iff.1 hvalues).length_eq
      exact ⟨ns, .plain hf hns (hlength ▸ harity) hkeyword, hvalues⟩
  | saving hargs harity =>
      obtain ⟨ns, hns, hvalues⟩ := forall₂_isOperand_iff.1 hargs
      have hlength := (mapM_eq_some_iff.1 hvalues).length_eq
      exact ⟨ns, .saving hns (hlength ▸ harity), hvalues⟩
  | ending hkeyword => exact ⟨[], .ending hkeyword, rfl⟩
  | restoring hrestore => exact ⟨[], .restoring hrestore, rfl⟩

/-- With as many operands as the form asks for, it makes an operator. -/
theorem isSome_operator? {K : Type} {xs : List K} (h : xs.length = f.arity) :
    (f.operator? saving keyword xs).isSome := by
  cases f
  case strokeColor | fillColor => match xs, h with | [_, _, _], _ => rfl
  case transform | curveTo => match xs, h with | [_, _, _, _, _, _], _ => rfl
  case moveTo | lineTo => match xs, h with | [_, _], _ => rfl
  case curveFromCurrent | curveIntoStop | rectangle => match xs, h with | [_, _, _, _], _ => rfl
  case lineWidth => match xs, h with | [_], _ => rfl
  all_goals match xs, h with | [], _ => rfl

theorem Reads.length_eq {α : Type} {operand : List Char → α → Prop} {xs : List α}
    (h : f.Reads operand ws saving keyword xs) : xs.length = f.arity := by
  cases h with
  | plain _ _ harity _ => exact harity
  | saving _ harity => exact harity
  | ending => rfl
  | restoring => rfl

theorem no_digit_of_mem_keywords (h : keyword ∈ f.keywords) :
    keyword.any isDecimalDigit = false := by
  have hall : ∀ f ∈ priority, ∀ keyword ∈ f.keywords, keyword.any isDecimalDigit = false := by
    decide
  exact hall f (mem_priority f) keyword h

theorem forall₂_isAscii_iff {args : List (List Char)} {ns : List Numeral}
    (h : List.Forall₂ Numeral.Spelling args ns) :
    (∀ n ∈ ns, n.IsAscii) ↔
      ∀ w ∈ args, ∀ c ∈ w, isDecimalDigit c = true → Numeral.IsAsciiDigit c := by
  induction h with
  | nil => exact iff_of_true nofun nofun
  | cons hn _ ih => rw [List.forall_mem_cons, List.forall_mem_cons, hn.isAscii_iff, ih]

/-- The numerals that a form finds are ASCII exactly if all digits of the words are. -/
theorem Reads.isAscii_iff {ns : List Numeral}
    (h : f.Reads Numeral.Spelling ws saving keyword ns) (hf : f ≠ restore) :
    (∀ n ∈ ns, n.IsAscii) ↔
      ∀ w ∈ ws, ∀ c ∈ w, isDecimalDigit c = true → Numeral.IsAsciiDigit c := by
  have hword : ∀ w : List Char, w.any isDecimalDigit = false →
      ∀ c ∈ w, isDecimalDigit c = true → Numeral.IsAsciiDigit c := by
    intro w hw c hc hdigit
    exact absurd hdigit (List.any_eq_false.1 hw c hc)
  cases h with
  | plain _ hargs _ hkeyword =>
      rw [List.forall_mem_append, List.forall_mem_singleton, forall₂_isAscii_iff hargs]
      exact (and_iff_left (hword _ (no_digit_of_mem_keywords hkeyword))).symm
  | saving hargs _ =>
      have hlast : ∀ w ∈ [['c', 'm']],
          ∀ c ∈ w, isDecimalDigit c = true → Numeral.IsAsciiDigit c := by
        intro w hw
        obtain rfl := List.mem_singleton.1 hw
        exact hword ['c', 'm'] (by decide)
      rw [List.forall_mem_cons, List.forall_mem_append, forall₂_isAscii_iff hargs]
      rw [and_iff_right (hword ['q'] (by decide)), and_iff_left hlast]
  | ending hkeyword =>
      refine iff_of_true nofun ?_
      rw [List.forall_mem_cons, List.forall_mem_singleton]
      exact ⟨hword _ (no_digit_of_mem_keywords hkeyword), hword ['n'] (by decide)⟩
  | restoring => exact absurd rfl hf

theorem isSome_mapM_value?_iff {ns : List Numeral} :
    (ns.mapM Numeral.value?).isSome ↔ ∀ n ∈ ns, n.IsAscii := by
  constructor
  · intro h
    obtain ⟨xs, hxs⟩ := Option.isSome_iff_exists.1 h
    have hvalues := mapM_eq_some_iff.1 hxs
    clear h hxs
    induction hvalues with
    | nil => nofun
    | cons hx _ ih => exact List.forall_mem_cons.2 ⟨(Numeral.value?_eq_some_iff.1 hx).1, ih⟩
  · intro h
    refine Option.isSome_iff_exists.2 ⟨ns.map Numeral.nearest, mapM_eq_some_iff.2 ?_⟩
    rw [List.forall₂_map_right_iff, List.forall₂_same]
    exact fun n hn => Numeral.value?_eq_some_iff.2 ⟨h n hn, rfl⟩

end Form

/-! ### The reader of lines -/

/-- A line is read as an operator exactly when **its words spell it**. -/
theorem classify_eq_some_iff {line : List Char} {op : Operator Float} :
    classify line = some op ↔ Operator.Spelling IsOperand (words line) op := by
  unfold classify
  rw [classifyWords_eq_some_iff Form.mem_priority, Operator.spelling_iff_reads]
  constructor
  · rintro ⟨f, r, hr, hop⟩
    obtain ⟨xs, hxs, hop⟩ := Option.bind_eq_some_iff.1 hop
    exact ⟨f, r.saving, r.keyword, xs, (Form.reads_of_read? hr).of_numerals hxs, hop⟩
  · rintro ⟨f, saving, keyword, xs, h, hop⟩
    obtain ⟨ns, hns, hvalues⟩ := h.exists_numerals
    exact ⟨f, ⟨saving, ns, keyword⟩, hns.read?, Option.bind_eq_some_iff.2 ⟨xs, hvalues, hop⟩⟩

/-- A line of one of the shapes **fails only at digits that are not ASCII**. -/
theorem classify_isSome_iff {line : List Char} {form : Operator Numeral} (hform : form ≠ .restore)
    (h : Operator.Spelling Numeral.Spelling (words line) form) :
    (classify line).isSome ↔
      ∀ w ∈ words line, ∀ c ∈ w, isDecimalDigit c = true → Numeral.IsAsciiDigit c := by
  obtain ⟨f, saving, keyword, ns, hreads, hop⟩ := Operator.spelling_iff_reads.1 h
  have hf : f ≠ .restore := by
    rintro rfl
    generalize words line = ws at hreads
    cases hreads with
    | plain hrestore => exact hrestore rfl
    | restoring => exact hform (Option.some.inj hop).symm
  rw [← hreads.isAscii_iff hf, ← Form.isSome_mapM_value?_iff]
  constructor
  · intro hsome
    obtain ⟨op, hop⟩ := Option.isSome_iff_exists.1 hsome
    obtain ⟨g, r, hr, hbuild⟩ := (classifyWords_eq_some_iff Form.mem_priority).1 hop
    -- the words determine the form, and with it the numerals
    have hsame := (Form.reads_of_read? hr).ofWords?_eq
    rw [hreads.ofWords?_eq] at hsame
    obtain rfl := Option.some.inj hsame
    rw [hreads.read?] at hr
    obtain rfl := Option.some.inj hr
    obtain ⟨xs, hxs, -⟩ := Option.bind_eq_some_iff.1 hbuild
    exact Option.isSome_iff_exists.2 ⟨xs, hxs⟩
  · intro hsome
    obtain ⟨xs, hxs⟩ := Option.isSome_iff_exists.1 hsome
    have hargs := hreads.of_numerals hxs
    obtain ⟨op, hop⟩ := Option.isSome_iff_exists.1 (Form.isSome_operator? hargs.length_eq)
    exact Option.isSome_iff_exists.2
      ⟨op, classify_eq_some_iff.2 (Operator.spelling_of_reads hargs hop)⟩

/-- **The grammar of lines**: there is one way to cut a line into words, and what the line is read
as depends on them alone.  It is a restoring if one of the words is the one for that, and otherwise
the operator of the shape that all the words have together, if its numerals are in ASCII digits. -/
theorem classify_grammar (line : List Char) :
    (∀ tokens, Cut isBlank line tokens ↔ tokens = words line) ∧
    (classify line = some .restore ↔ ['Q'] ∈ words line) ∧
    (∀ op, classify line = some op ↔ Operator.Spelling IsOperand (words line) op) ∧
    ∀ form, form ≠ .restore → Operator.Spelling Numeral.Spelling (words line) form →
      ((classify line).isSome ↔
        ∀ w ∈ words line, ∀ c ∈ w, isDecimalDigit c = true → Numeral.IsAsciiDigit c) := by
  refine ⟨fun tokens => ⟨Cut.eq_runs, ?_⟩, ?_, fun op => classify_eq_some_iff,
    fun form => classify_isSome_iff⟩
  · rintro rfl
    exact cut_runs isBlank line
  · rw [classify_eq_some_iff]
    constructor
    · generalize words line = ws
      intro h
      cases h with
      | restore hrestore => exact hrestore
    · exact .restore

end Artwork
