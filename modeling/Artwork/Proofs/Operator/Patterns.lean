import Artwork.Proofs.Operator.Grammar
import Mathlib.Computability.Language

/-!
**The patterns of operators, and the order in which they are tried.**

Each form of operator is a regular language of lines.  It is written down here character by
character, with blanks wherever they may stand: unlike the words of a line, a pattern says nothing
about how a line is cut.  A line is in the pattern of a form exactly when the form accepts its words,
and no line is in two patterns.  So the forms can be tried in any order.

Main definitions:

* `Pattern.numeral`, `Pattern.spaced`, `Pattern.anchored` — numerals, and tokens with blanks between
  and around them;
* `Form.pattern` — **the lines of each form**.

Main results:

* `Pattern.mem_anchored_iff` — the tokens of a line are its words;
* `Form.mem_pattern_iff` — a pattern has the lines **whose words the form accepts**;
* `classify_anyOrder` — at most one pattern has a line, and the order of the forms does not matter.
-/

set_option relaxedAutoImplicit false
set_option autoImplicit false

namespace Artwork

open scoped Computability

namespace Pattern

/-! ### Characters and tokens -/

/-- One character of a class. -/
def oneOf (p : Char → Bool) : Language Char :=
  {w | ∃ c, p c = true ∧ w = [c]}

/-- These characters and no others. -/
def literal (w : List Char) : Language Char :=
  {w}

/-- Any number of blanks. -/
def blanks : Language Char :=
  (oneOf isBlank)∗

/-- At least one blank. -/
def gap : Language Char :=
  oneOf isBlank * (oneOf isBlank)∗

/-- Any characters at all. -/
def anyText : Language Char :=
  (oneOf fun _ => true)∗

/-- At least one digit. -/
def digits : Language Char :=
  oneOf isDecimalDigit * (oneOf isDecimalDigit)∗

/-- A sign or none, and then digits with an optional point and optional further digits, or a point
and digits. -/
def numeral : Language Char :=
  (1 + oneOf fun c => c == '+' || c == '-') *
    (digits * (1 + literal ['.']) * (oneOf isDecimalDigit)∗ + literal ['.'] * digits)

/-- `n` numerals. -/
def numerals (n : Nat) : List (Language Char) :=
  List.replicate n numeral

/-- A letter, with a star behind it or not. -/
def starred (c : Char) : Language Char :=
  literal [c] * (1 + literal ['*'])

/-- Tokens with a gap between two of them. -/
def spaced : List (Language Char) → Language Char
  | [] => 1
  | [token] => token
  | token :: next :: tokens => token * gap * spaced (next :: tokens)

/-- A whole line of tokens, which may have blanks at both ends. -/
def anchored (tokens : List (Language Char)) : Language Char :=
  blanks * spaced tokens * blanks

theorem mem_literal {w v : List Char} : w ∈ literal v ↔ w = v := Iff.rfl

theorem mem_kstar_oneOf {p : Char → Bool} {w : List Char} :
    w ∈ (oneOf p)∗ ↔ ∀ c ∈ w, p c = true := by
  constructor
  · intro h
    obtain ⟨ws, rfl, hws⟩ := Language.mem_kstar.1 h
    intro c hc
    obtain ⟨v, hv, hc⟩ := List.mem_flatten.1 hc
    obtain ⟨c', hc', rfl⟩ := hws v hv
    obtain rfl := List.mem_singleton.1 hc
    exact hc'
  · intro h
    refine Language.mem_kstar.2 ⟨w.map ([·]), by rw [← List.flatMap_def, List.flatMap_singleton'],
      fun v hv => ?_⟩
    obtain ⟨c, hc, rfl⟩ := List.mem_map.1 hv
    exact ⟨c, h c hc, rfl⟩

/-- Once or more, a class has the words that are not empty and have only its characters. -/
theorem mem_oneOf_mul_kstar {p : Char → Bool} {w : List Char} :
    w ∈ oneOf p * (oneOf p)∗ ↔ w ≠ [] ∧ ∀ c ∈ w, p c = true := by
  rw [Language.mem_mul]
  constructor
  · rintro ⟨_, ⟨c, hc, rfl⟩, rest, hrest, rfl⟩
    exact ⟨List.cons_ne_nil c rest, List.forall_mem_cons.2 ⟨hc, mem_kstar_oneOf.1 hrest⟩⟩
  · rintro ⟨hne, hw⟩
    obtain ⟨c, rest, rfl⟩ := List.exists_cons_of_ne_nil hne
    obtain ⟨hc, hrest⟩ := List.forall_mem_cons.1 hw
    exact ⟨[c], ⟨c, hc, rfl⟩, rest, mem_kstar_oneOf.2 hrest, rfl⟩

theorem mem_anyText (w : List Char) : w ∈ anyText :=
  mem_kstar_oneOf.2 fun _ _ => rfl

/-- Nothing, or any text up to a character of the class: the last character, if any, is of it. -/
theorem mem_one_add_anyText_mul {p : Char → Bool} {w : List Char} :
    w ∈ 1 + anyText * oneOf p ↔ ∀ a, w.getLast? = some a → p a = true := by
  rw [Language.mem_add, Language.mem_one, Language.mem_mul]
  constructor
  · rintro (rfl | ⟨v, -, _, ⟨c, hc, rfl⟩, rfl⟩) a ha
    · cases ha
    · rw [List.getLast?_concat] at ha
      obtain rfl := Option.some.inj ha
      exact hc
  · intro h
    rcases List.eq_nil_or_concat w with rfl | ⟨v, c, rfl⟩
    · exact Or.inl rfl
    · rw [List.concat_eq_append] at h ⊢
      exact Or.inr ⟨v, mem_anyText v, _, ⟨c, h c (List.getLast?_concat ..), rfl⟩, rfl⟩

/-- Nothing, or any text from a character of the class on: the first character, if any, is of it. -/
theorem mem_one_add_mul_anyText {p : Char → Bool} {w : List Char} :
    w ∈ 1 + oneOf p * anyText ↔ ∀ a, w.head? = some a → p a = true := by
  rw [Language.mem_add, Language.mem_one, Language.mem_mul]
  constructor
  · rintro (rfl | ⟨_, ⟨c, hc, rfl⟩, v, -, rfl⟩) a ha
    · cases ha
    · obtain rfl := Option.some.inj ha
      exact hc
  · intro h
    cases w with
    | nil => exact Or.inl rfl
    | cons c v => exact Or.inr ⟨_, ⟨c, h c rfl, rfl⟩, v, mem_anyText v, rfl⟩

/-- A first part that may be missing is missing or not. -/
theorem mem_one_add_mul {l m : Language Char} {w : List Char} :
    w ∈ (1 + l) * m ↔ w ∈ m ∨ w ∈ l * m := by
  rw [add_mul, one_mul, Language.mem_add]

theorem mem_mul_one_add {l m : Language Char} {w : List Char} :
    w ∈ l * (1 + m) ↔ w ∈ l ∨ w ∈ l * m := by
  rw [mul_add, mul_one, Language.mem_add]

theorem mem_starred {c : Char} {w : List Char} : w ∈ starred c ↔ w = [c] ∨ w = [c, '*'] := by
  rw [starred, mem_mul_one_add, Language.mem_mul]
  refine or_congr Iff.rfl ⟨?_, ?_⟩
  · rintro ⟨_, rfl, _, rfl, rfl⟩
    rfl
  · rintro rfl
    exact ⟨[c], rfl, ['*'], rfl, rfl⟩

/-- The pattern of numerals without their sign. -/
theorem mem_unsigned_iff {w : List Char} :
    w ∈ digits * (1 + literal ['.']) * (oneOf isDecimalDigit)∗ + literal ['.'] * digits ↔
      ∃ ds fs, Numeral.Unsigned w ds fs := by
  constructor
  · rw [Language.mem_add]
    rintro (h | h)
    · obtain ⟨front, hfront, fs, hfs, rfl⟩ := Language.mem_mul.1 h
      have hfs := mem_kstar_oneOf.1 hfs
      rcases mem_mul_one_add.1 hfront with hds | hpoint
      · -- digits and more digits, without a point
        obtain ⟨hne, hds⟩ := mem_oneOf_mul_kstar.1 hds
        exact ⟨_, _, .whole (List.append_ne_nil_of_left_ne_nil hne fs)
          (List.forall_mem_append.2 ⟨hds, hfs⟩)⟩
      · obtain ⟨ds, hds, _, rfl, rfl⟩ := Language.mem_mul.1 hpoint
        obtain ⟨hne, hds⟩ := mem_oneOf_mul_kstar.1 hds
        rw [List.append_assoc]
        exact ⟨_, _, .point hne hds hfs⟩
    · obtain ⟨_, rfl, fs, hfs, rfl⟩ := Language.mem_mul.1 h
      obtain ⟨hne, hfs⟩ := mem_oneOf_mul_kstar.1 hfs
      exact ⟨_, _, .fraction hne hfs⟩
  · rintro ⟨ds, fs, h⟩
    rw [Language.mem_add]
    cases h with
    | whole hne hds =>
        refine Or.inl (Language.mem_mul.2 ⟨w, ?_, [], mem_kstar_oneOf.2 nofun, List.append_nil w⟩)
        exact mem_mul_one_add.2 (Or.inl (mem_oneOf_mul_kstar.2 ⟨hne, hds⟩))
    | point hne hds hfs =>
        refine Or.inl (Language.mem_mul.2 ⟨ds ++ ['.'], ?_, fs, mem_kstar_oneOf.2 hfs, by simp⟩)
        refine mem_mul_one_add.2 (Or.inr (Language.append_mem_mul ?_ rfl))
        exact mem_oneOf_mul_kstar.2 ⟨hne, hds⟩
    | fraction hne hfs =>
        exact Or.inr (Language.append_mem_mul (a := ['.']) rfl (mem_oneOf_mul_kstar.2 ⟨hne, hfs⟩))

/-- The pattern of numerals has exactly the words that spell one. -/
theorem mem_numeral_iff {w : List Char} : w ∈ numeral ↔ ∃ n, Numeral.Spelling w n := by
  rw [numeral, mem_one_add_mul, mem_unsigned_iff]
  constructor
  · rintro (⟨ds, fs, h⟩ | h)
    · exact ⟨_, .unsigned h⟩
    · obtain ⟨_, ⟨c, hc, rfl⟩, v, hv, rfl⟩ := Language.mem_mul.1 h
      obtain ⟨ds, fs, hv⟩ := mem_unsigned_iff.1 hv
      rw [Bool.or_eq_true, beq_iff_eq, beq_iff_eq] at hc
      rcases hc with rfl | rfl
      · exact ⟨_, .plus hv⟩
      · exact ⟨_, .minus hv⟩
  · rintro ⟨n, h⟩
    cases h with
    | unsigned h => exact Or.inl ⟨_, _, h⟩
    | plus h =>
        have hv := mem_unsigned_iff.2 ⟨_, _, h⟩
        exact Or.inr (Language.mem_mul.2 ⟨['+'], ⟨'+', rfl, rfl⟩, _, hv, rfl⟩)
    | minus h =>
        have hv := mem_unsigned_iff.2 ⟨_, _, h⟩
        exact Or.inr (Language.mem_mul.2 ⟨['-'], ⟨'-', rfl, rfl⟩, _, hv, rfl⟩)

/-! ### Tokens are words -/

/-- A token cannot be cut: it has a character, and none that is blank. -/
def IsToken (token : Language Char) : Prop :=
  ∀ w ∈ token, w ≠ [] ∧ ∀ c ∈ w, isBlank c = false

variable {tokens : List (Language Char)}

/-- The words of tokens with gaps between them. -/
theorem words_of_mem_spaced (htokens : ∀ token ∈ tokens, IsToken token) {w : List Char}
    (h : w ∈ spaced tokens) : List.Forall₂ (· ∈ ·) (words w) tokens := by
  induction tokens generalizing w with
  | nil =>
      obtain rfl := (Language.mem_one w).1 h
      exact .nil
  | cons token tokens ih =>
      obtain ⟨htoken, htokens⟩ := List.forall_mem_cons.1 htokens
      cases tokens with
      | nil =>
          obtain ⟨hne, hblank⟩ := htoken w h
          have hone : words w = [w] := runs_of_run hne hblank
          rw [hone]
          exact .cons h .nil
      | cons next tokens =>
          obtain ⟨_, hfront, rest, hrest, rfl⟩ := Language.mem_mul.1 h
          obtain ⟨v, hv, between, hbetween, rfl⟩ := Language.mem_mul.1 hfront
          obtain ⟨hne, hblank⟩ := htoken v hv
          obtain ⟨hgapNe, hgap⟩ := mem_oneOf_mul_kstar.1 hbetween
          have hcut : words (v ++ between ++ rest) = v :: words rest := by
            rw [List.append_assoc, words, runs_append_gap_append hgapNe hgap, runs_of_run hne hblank]
            rfl
          rw [hcut]
          exact .cons hv (ih htokens hrest)

theorem head_of_mem_spaced {token : Language Char} (htoken : IsToken token) {w : List Char}
    (h : w ∈ spaced (token :: tokens)) : ∃ a rest, w = a :: rest ∧ isBlank a = false := by
  obtain ⟨v, hv, rest, rfl⟩ : ∃ v ∈ token, ∃ rest, w = v ++ rest := by
    cases tokens with
    | nil => exact ⟨w, h, [], (List.append_nil w).symm⟩
    | cons next tokens =>
        obtain ⟨_, hfront, rest, -, rfl⟩ := Language.mem_mul.1 h
        obtain ⟨v, hv, between, -, rfl⟩ := Language.mem_mul.1 hfront
        exact ⟨v, hv, between ++ rest, List.append_assoc ..⟩
  obtain ⟨hne, hblank⟩ := htoken v hv
  obtain ⟨a, v, rfl⟩ := List.exists_cons_of_ne_nil hne
  exact ⟨a, v ++ rest, rfl, hblank a (List.mem_cons_self ..)⟩

/-- A line whose pieces are tokens is made of them and of blanks. -/
theorem mem_anchored_of_cut (htokens : ∀ token ∈ tokens, IsToken token) {line : List Char}
    {pieces : List (List Char)} (hcut : Cut isBlank line pieces)
    (h : List.Forall₂ (· ∈ ·) pieces tokens) : line ∈ anchored tokens := by
  induction hcut generalizing tokens with
  | gap hgap =>
      cases h
      exact Language.mem_mul.2 ⟨_, Language.append_mem_mul (mem_kstar_oneOf.2 hgap) rfl, [],
        mem_kstar_oneOf.2 nofun, by simp⟩
  | @run gap run rest pieces hgap hne hrun hrest _ ih =>
      cases h with
      | @cons _ token _ tokens htoken h =>
          obtain ⟨-, htokens⟩ := List.forall_mem_cons.1 htokens
          obtain ⟨_, hfront, last, hlast, rfl⟩ := Language.mem_mul.1 (ih htokens h)
          obtain ⟨between, hbetween, inner, hinner, rfl⟩ := Language.mem_mul.1 hfront
          have hfirst := mem_kstar_oneOf.2 hgap
          cases tokens with
          | nil =>
              obtain rfl := (Language.mem_one inner).1 hinner
              refine Language.mem_mul.2 ⟨gap ++ run, Language.append_mem_mul hfirst htoken,
                between ++ last, ?_, by simp⟩
              exact mem_kstar_oneOf.2 (List.forall_mem_append.2
                ⟨mem_kstar_oneOf.1 hbetween, mem_kstar_oneOf.1 hlast⟩)
          | cons next tokens =>
              -- the next token does not begin with a blank, so there is one before it
              have hbetweenNe : between ≠ [] := by
                rintro rfl
                obtain ⟨a, inner, rfl, ha⟩ :=
                  head_of_mem_spaced (htokens next (List.mem_cons_self ..)) hinner
                have hblank : isBlank a = true := hrest a rfl
                rw [ha] at hblank
                cases hblank
              refine Language.mem_mul.2 ⟨gap ++ (run ++ between ++ inner), ?_, last, hlast, by simp⟩
              refine Language.append_mem_mul hfirst (Language.append_mem_mul
                (Language.append_mem_mul htoken ?_) hinner)
              exact mem_oneOf_mul_kstar.2 ⟨hbetweenNe, mem_kstar_oneOf.1 hbetween⟩

/-- A line is one of these tokens exactly if **its words** are, one by one. -/
theorem mem_anchored_iff (htokens : ∀ token ∈ tokens, IsToken token) {line : List Char} :
    line ∈ anchored tokens ↔ List.Forall₂ (· ∈ ·) (words line) tokens := by
  constructor
  · intro h
    obtain ⟨_, hfront, last, hlast, rfl⟩ := Language.mem_mul.1 h
    obtain ⟨first, hfirst, inner, hinner, rfl⟩ := Language.mem_mul.1 hfront
    have hsame : words (first ++ inner ++ last) = words inner := by
      rw [List.append_assoc, words, runs_gap_append (mem_kstar_oneOf.1 hfirst),
        runs_append_gap (mem_kstar_oneOf.1 hlast), words]
    rw [hsame]
    exact words_of_mem_spaced htokens hinner
  · exact mem_anchored_of_cut htokens (cut_runs isBlank line)

/-! ### The tokens of operators -/

/-- No character is both a digit and a blank. -/
theorem isBlank_of_isDecimalDigit {c : Char} (h : isDecimalDigit c = true) :
    isBlank c = false := by
  have hapart : ∀ first ∈ decimalZeros, ∀ range ∈ blankRanges,
      first + 9 < range.1 ∨ range.2 < first := by decide
  obtain ⟨first, hfirst, hc⟩ := List.any_eq_true.1 h
  rw [Bool.and_eq_true, decide_eq_true_eq, decide_eq_true_eq] at hc
  refine List.any_eq_false.2 fun range hrange hblank => ?_
  rw [Bool.and_eq_true, decide_eq_true_eq, decide_eq_true_eq] at hblank
  have hrange := hapart first hfirst range hrange
  omega

/-- Keywords are tokens. -/
theorem isToken_of_keywords {f : Form} {keyword : Language Char}
    (h : ∀ w, w ∈ keyword ↔ w ∈ f.keywords) : IsToken keyword := by
  have hall : ∀ f ∈ Form.priority, ∀ w ∈ f.keywords, w ≠ [] ∧ w.any isBlank = false := by decide
  intro w hw
  obtain ⟨hne, hnone⟩ := hall f (Form.mem_priority f) w ((h w).1 hw)
  exact ⟨hne, fun c hc => by simpa using List.any_eq_false.1 hnone c hc⟩

theorem isToken_numeral : IsToken numeral := by
  intro w hw
  obtain ⟨n, hn⟩ := mem_numeral_iff.1 hw
  have hdigits : ∀ ds : List Char, Numeral.Digits ds → ∀ c ∈ ds, isBlank c = false :=
    fun ds hds c hc => isBlank_of_isDecimalDigit (hds c hc)
  have hunsigned : ∀ v ds fs, Numeral.Unsigned v ds fs → v ≠ [] ∧ ∀ c ∈ v, isBlank c = false := by
    intro v ds fs hv
    cases hv with
    | whole hne hds => exact ⟨hne, hdigits _ hds⟩
    | point hne hds hfs =>
        refine ⟨List.append_ne_nil_of_left_ne_nil hne _, List.forall_mem_append.2
          ⟨hdigits _ hds, List.forall_mem_cons.2 ⟨by decide, hdigits _ hfs⟩⟩⟩
    | fraction hne hfs =>
        exact ⟨List.cons_ne_nil _ _, List.forall_mem_cons.2 ⟨by decide, hdigits _ hfs⟩⟩
  cases hn with
  | unsigned h => exact hunsigned _ _ _ h
  | plus h =>
      exact ⟨List.cons_ne_nil _ _, List.forall_mem_cons.2 ⟨by decide, (hunsigned _ _ _ h).2⟩⟩
  | minus h =>
      exact ⟨List.cons_ne_nil _ _, List.forall_mem_cons.2 ⟨by decide, (hunsigned _ _ _ h).2⟩⟩

/-- Words are of these tokens exactly if they are as many numerals and then a keyword. -/
theorem forall₂_numerals_iff {n : Nat} {keyword : Language Char} {ws : List (List Char)} :
    List.Forall₂ (· ∈ ·) ws (numerals n ++ [keyword]) ↔
      ∃ args ns w, ws = args ++ [w] ∧ List.Forall₂ Numeral.Spelling args ns ∧ ns.length = n ∧
        w ∈ keyword := by
  induction n generalizing ws with
  | zero =>
      constructor
      · rintro (_ | ⟨hw, _ | _⟩)
        exact ⟨[], [], _, rfl, .nil, rfl, hw⟩
      · rintro ⟨args, ns, w, rfl, hargs, hlength, hw⟩
        obtain rfl := List.length_eq_zero_iff.1 hlength
        obtain rfl := List.forall₂_nil_right_iff.1 hargs
        exact .cons hw .nil
  | succ n ih =>
      rw [numerals, List.replicate_succ, List.cons_append]
      constructor
      · rintro (_ | ⟨hfirst, hrest⟩)
        obtain ⟨m, hm⟩ := mem_numeral_iff.1 hfirst
        obtain ⟨args, ns, w, rfl, hargs, rfl, hw⟩ := ih.1 hrest
        exact ⟨_ :: args, m :: ns, w, rfl, .cons hm hargs, rfl, hw⟩
      · rintro ⟨args, ns, w, rfl, hargs, hlength, hw⟩
        cases hargs with
        | nil => cases hlength
        | cons hm hargs =>
            exact .cons (mem_numeral_iff.2 ⟨_, hm⟩)
              (ih.2 ⟨_, _, w, rfl, hargs, Nat.succ.inj hlength, hw⟩)

theorem isToken_of_mem_numerals {f : Form} {keyword : Language Char} {n : Nat}
    (h : ∀ w, w ∈ keyword ↔ w ∈ f.keywords) :
    ∀ token ∈ numerals n ++ [keyword], IsToken token := by
  intro token htoken
  rcases List.mem_append.1 htoken with htoken | htoken
  · obtain rfl := List.eq_of_mem_replicate htoken
    exact isToken_numeral
  · obtain rfl := List.mem_singleton.1 htoken
    exact isToken_of_keywords h

end Pattern

namespace Form

open Pattern

/-! ### The patterns of forms -/

/-- **The lines of each form.**  A restoring may stand anywhere on its line; the other patterns are
of whole lines. -/
def pattern : Form → Language Char
  | strokeColor => anchored (numerals 3 ++ [literal ['R', 'G']])
  | fillColor => anchored (numerals 3 ++ [literal ['r', 'g']])
  | transform =>
    blanks * (1 + literal ['q'] * gap) * spaced (numerals 6 ++ [literal ['c', 'm']]) * blanks
  | save => anchored [literal ['q']]
  | restore =>
    (1 + anyText * oneOf isBlank) * literal ['Q'] * (1 + oneOf isBlank * anyText)
  | moveTo => anchored (numerals 2 ++ [literal ['m']])
  | lineTo => anchored (numerals 2 ++ [literal ['l']])
  | curveTo => anchored (numerals 6 ++ [literal ['c']])
  | curveFromCurrent => anchored (numerals 4 ++ [literal ['v']])
  | curveIntoStop => anchored (numerals 4 ++ [literal ['y']])
  | rectangle => anchored (numerals 4 ++ [literal ['r', 'e']])
  | clip => blanks * starred 'W' * (1 + gap * literal ['n']) * blanks
  | closePath => anchored [literal ['h']]
  | lineWidth => anchored (numerals 1 ++ [literal ['w']])
  | endPath => anchored [literal ['n']]
  | stroke => anchored [literal ['S']]
  | closeStroke => anchored [literal ['s']]
  | fill => anchored [starred 'f' + literal ['F']]
  | fillStroke => anchored [starred 'B']
  | closeFillStroke => anchored [starred 'b']

theorem accepts_iff {f : Form} {ws : List (List Char)} :
    f.accepts ws = true ↔ ∃ saving keyword ns, f.Reads Numeral.Spelling ws saving keyword ns := by
  rw [accepts, Option.isSome_iff_exists]
  constructor
  · rintro ⟨r, hr⟩
    exact ⟨r.saving, r.keyword, r.operands, reads_of_read? hr⟩
  · rintro ⟨saving, keyword, ns, h⟩
    exact ⟨_, h.read?⟩

/-- The pattern of a plain form is a numeral for each operand, and one of its keywords. -/
theorem IsPlain.exists_pattern_eq {f : Form} (hf : f.IsPlain) :
    ∃ keyword, f.pattern = anchored (numerals f.arity ++ [keyword]) ∧
      ∀ w, w ∈ keyword ↔ w ∈ f.keywords := by
  have hstarred : ∀ c w, w ∈ starred c ↔ w ∈ [[c], [c, '*']] := by
    intro c w
    rw [mem_starred, List.mem_pair]
  have hliteral : ∀ v w, w ∈ literal v ↔ w ∈ [v] := by
    intro v w
    rw [mem_literal, List.mem_singleton]
  cases f with
  | restore => exact absurd rfl hf.1
  | transform => exact absurd rfl hf.2.1
  | clip => exact absurd rfl hf.2.2
  | fill =>
      refine ⟨_, rfl, fun w => ?_⟩
      rw [Language.mem_add, mem_starred, mem_literal]
      simp [keywords, or_comm, or_left_comm]
  | fillStroke => exact ⟨_, rfl, hstarred 'B'⟩
  | closeFillStroke => exact ⟨_, rfl, hstarred 'b'⟩
  | _ => exact ⟨_, rfl, hliteral _⟩

theorem IsPlain.mem_pattern_iff {f : Form} (hf : f.IsPlain) {line : List Char} :
    line ∈ f.pattern ↔ f.accepts (words line) = true := by
  obtain ⟨keyword, hpattern, hkeyword⟩ := hf.exists_pattern_eq
  rw [hpattern, mem_anchored_iff (isToken_of_mem_numerals hkeyword), forall₂_numerals_iff,
    accepts_iff]
  constructor
  · rintro ⟨args, ns, w, hwords, hargs, hlength, hw⟩
    rw [hwords]
    exact ⟨false, w, ns, .plain hf.1 hargs hlength ((hkeyword w).1 hw)⟩
  · rintro ⟨saving, w, ns, h⟩
    obtain ⟨hw, args, hwords, hargs⟩ := h.mem_keywords hf
    exact ⟨args, ns, w, hwords, hargs, h.length_eq, (hkeyword w).2 hw⟩

/-- The pattern of a matrix has the lines whose words are accepted, without a saving or with one. -/
theorem mem_pattern_transform_iff {line : List Char} :
    line ∈ transform.pattern ↔ transform.accepts (words line) = true := by
  have hkeyword : ∀ w, w ∈ literal ['c', 'm'] ↔ w ∈ transform.keywords :=
    fun w => List.mem_singleton.symm
  have hsave : ∀ w, w ∈ literal ['q'] ↔ w ∈ save.keywords := fun w => List.mem_singleton.symm
  have hplain := isToken_of_mem_numerals (n := 6) hkeyword
  have hpattern : transform.pattern = anchored (numerals 6 ++ [literal ['c', 'm']]) +
      anchored (literal ['q'] :: (numerals 6 ++ [literal ['c', 'm']])) := by
    have hspaced : spaced (literal ['q'] :: (numerals 6 ++ [literal ['c', 'm']])) =
        literal ['q'] * gap * spaced (numerals 6 ++ [literal ['c', 'm']]) := rfl
    rw [anchored, anchored, hspaced, pattern, mul_add, mul_one, add_mul, add_mul]
    simp only [mul_assoc]
  rw [hpattern, Language.mem_add, mem_anchored_iff hplain,
    mem_anchored_iff (List.forall_mem_cons.2 ⟨isToken_of_keywords hsave, hplain⟩), accepts_iff,
    List.forall₂_cons_right_iff]
  constructor
  · rintro (h | ⟨_, _, rfl, h, hwords⟩)
    · obtain ⟨args, ns, w, hwords, hargs, hlength, hw⟩ := forall₂_numerals_iff.1 h
      rw [hwords]
      exact ⟨false, w, ns, .plain nofun hargs hlength ((hkeyword w).1 hw)⟩
    · obtain ⟨args, ns, _, rfl, hargs, hlength, rfl⟩ := forall₂_numerals_iff.1 h
      rw [hwords]
      exact ⟨true, _, ns, .saving hargs hlength⟩
  · generalize words line = ws
    rintro ⟨saving, w, ns, h⟩
    cases h with
    | plain _ hargs hlength hw =>
        exact Or.inl (forall₂_numerals_iff.2 ⟨_, ns, w, rfl, hargs, hlength, (hkeyword w).2 hw⟩)
    | saving hargs hlength =>
        exact Or.inr ⟨_, _, rfl, forall₂_numerals_iff.2 ⟨_, ns, _, rfl, hargs, hlength, rfl⟩, rfl⟩

/-- The pattern of a clip has the lines whose words are accepted, without the end of the path or with
it. -/
theorem mem_pattern_clip_iff {line : List Char} :
    line ∈ clip.pattern ↔ clip.accepts (words line) = true := by
  have hkeyword : ∀ w, w ∈ starred 'W' ↔ w ∈ clip.keywords := by
    intro w
    rw [mem_starred, keywords, List.mem_pair]
  have hend : ∀ w, w ∈ literal ['n'] ↔ w ∈ endPath.keywords := fun w => List.mem_singleton.symm
  have hpattern : clip.pattern =
      anchored [starred 'W'] + anchored [starred 'W', literal ['n']] := by
    rw [anchored, anchored, spaced, spaced, spaced, pattern, mul_add, mul_one, add_mul]
    simp only [mul_assoc]
  have hone := isToken_of_keywords hkeyword
  have htwo := isToken_of_keywords hend
  rw [hpattern, Language.mem_add, mem_anchored_iff (List.forall_mem_singleton.2 hone),
    mem_anchored_iff (List.forall_mem_cons.2 ⟨hone, List.forall_mem_singleton.2 htwo⟩), accepts_iff]
  generalize words line = ws
  constructor
  · rintro (h | h)
    · obtain ⟨w, _, hw, hnil, rfl⟩ := List.forall₂_cons_right_iff.1 h
      obtain rfl := List.forall₂_nil_right_iff.1 hnil
      exact ⟨false, w, [], .singleton (by decide) rfl ((hkeyword w).1 hw)⟩
    · obtain ⟨w, _, hw, hrest, rfl⟩ := List.forall₂_cons_right_iff.1 h
      obtain ⟨_, _, rfl, hnil, rfl⟩ := List.forall₂_cons_right_iff.1 hrest
      obtain rfl := List.forall₂_nil_right_iff.1 hnil
      exact ⟨false, w, [], .ending ((hkeyword w).1 hw)⟩
  · rintro ⟨saving, w, ns, h⟩
    cases h with
    | plain _ hargs hlength hw =>
        obtain rfl := List.length_eq_zero_iff.1 hlength
        obtain rfl := List.forall₂_nil_right_iff.1 hargs
        exact Or.inl (.cons ((hkeyword w).2 hw) .nil)
    | ending hw => exact Or.inr (.cons ((hkeyword w).2 hw) (.cons rfl .nil))

/-- The pattern of a restoring has the lines with its keyword as a piece of them. -/
theorem mem_pattern_restore_iff_isPiece {line : List Char} :
    line ∈ restore.pattern ↔ ∃ before after, line = before ++ (['Q'] ++ after) ∧
      IsPiece isBlank before ['Q'] after := by
  rw [pattern, Language.mem_mul]
  constructor
  · rintro ⟨_, hfront, after, hafter, rfl⟩
    obtain ⟨before, hbefore, _, rfl, rfl⟩ := Language.mem_mul.1 hfront
    exact ⟨before, after, List.append_assoc .., mem_one_add_anyText_mul.1 hbefore,
      List.forall_mem_singleton.2 (by decide), mem_one_add_mul_anyText.1 hafter⟩
  · rintro ⟨before, after, rfl, hpiece⟩
    have hfront := Language.append_mem_mul (mem_one_add_anyText_mul.2 hpiece.before)
      (mem_literal.2 (Eq.refl ['Q']))
    exact ⟨before ++ ['Q'], hfront, after, mem_one_add_mul_anyText.2 hpiece.after,
      List.append_assoc ..⟩

theorem mem_pattern_restore_iff {line : List Char} :
    line ∈ restore.pattern ↔ restore.accepts (words line) = true := by
  rw [mem_pattern_restore_iff_isPiece, accepts_iff]
  constructor
  · rintro ⟨before, after, rfl, hpiece⟩
    have hmem : ['Q'] ∈ words (before ++ (['Q'] ++ after)) := by
      rw [words, hpiece.runs_append]
      exact List.mem_append_right _ (List.mem_cons_self ..)
    exact ⟨_, _, _, .restoring hmem⟩
  · rintro ⟨saving, keyword, ns, h⟩
    have hmem : ['Q'] ∈ words line := by
      generalize words line = ws at h
      cases h with
      | plain hrestore => exact absurd rfl hrestore
      | restoring hmem => exact hmem
    exact exists_isPiece_of_mem_runs hmem

/-- A pattern has the lines **whose words the form accepts**. -/
theorem mem_pattern_iff (f : Form) (line : List Char) :
    line ∈ f.pattern ↔ f.accepts (words line) = true := by
  cases f with
  | restore => exact mem_pattern_restore_iff
  | transform => exact mem_pattern_transform_iff
  | clip => exact mem_pattern_clip_iff
  | _ =>
      refine IsPlain.mem_pattern_iff ?_
      exact ⟨nofun, nofun, nofun⟩

/-- No line is in two patterns. -/
theorem eq_of_mem_pattern {f g : Form} {line : List Char} (hf : line ∈ f.pattern)
    (hg : line ∈ g.pattern) : f = g := by
  obtain ⟨_, _, _, hf⟩ := accepts_iff.1 ((mem_pattern_iff f line).1 hf)
  obtain ⟨_, _, _, hg⟩ := accepts_iff.1 ((mem_pattern_iff g line).1 hg)
  have hsame := hf.ofWords?_eq
  rw [hg.ofWords?_eq] at hsame
  exact (Option.some.inj hsame).symm

end Form

/-- **The forms of operators can be tried in any order.**  A form accepts the words of a line exactly
when its pattern has the line; at most one of the twenty patterns has it; and with the forms in any
other order the line is read as the same operator, or as none. -/
theorem classify_anyOrder (line : List Char) :
    (∀ f : Form, line ∈ f.pattern ↔ f.accepts (words line) = true) ∧
      (∀ f g : Form, line ∈ f.pattern → line ∈ g.pattern → f = g) ∧
      ∀ forms : List Form, forms.Perm Form.priority →
        classifyWords forms (words line) = classify line := by
  refine ⟨fun f => f.mem_pattern_iff line, fun f g => Form.eq_of_mem_pattern,
    fun forms hperm => Option.ext fun op => ?_⟩
  have hall : ∀ f, f ∈ forms := fun f => hperm.mem_iff.2 (Form.mem_priority f)
  rw [classify, classifyWords_eq_some_iff hall, classifyWords_eq_some_iff Form.mem_priority]

/-- A line of a clip, with blanks of several kinds. -/
def spacedClip : List Char :=
  [' ', 'W', '*', '\t', '\u00a0', 'n']

theorem classify_anyOrder_spacedClip :
    spacedClip ∈ Form.clip.pattern ∧ spacedClip ∉ Form.endPath.pattern ∧
      Form.priority.reverse.Perm Form.priority ∧
      classifyWords Form.priority.reverse (words spacedClip) = classify spacedClip ∧
      classify spacedClip = some (.construct .clip) := by
  obtain ⟨hpattern, hone, horder⟩ := classify_anyOrder spacedClip
  have hclip : spacedClip ∈ Form.clip.pattern := (hpattern .clip).2 (by decide +kernel)
  refine ⟨hclip, fun hend => ?_, List.reverse_perm _, horder _ (List.reverse_perm _),
    by decide +kernel⟩
  cases hone _ _ hclip hend

end Artwork
