import Artwork.Operator.Line
import Artwork.Proofs.Decimal.Spelling
import Mathlib.Data.List.Forall2

/-!
**What the forms of operators accept, and that no two accept the same words.**

The relation `Form.Reads` says which words a form accepts and what it finds in them: operands and
then a keyword, with a saving of the state in front of a matrix, the end of the path behind a clip,
and a restoring anywhere.  What an operand is, is a parameter, so that the same relation speaks of
numerals and of their values.  Words that are accepted determine the form, by the keyword at their
end.

Main definitions:

* `Form.Reads` — **what a form finds in the words it accepts**;
* `Form.ofWords?` — the only form that can accept the words.

Main results:

* `Form.Reads.ofWords?_eq` — **at most one form accepts**;
* `classifyWords_eq_some_iff` — so the order in which the forms are tried does not matter.
-/

set_option relaxedAutoImplicit false
set_option autoImplicit false

namespace Artwork

namespace Form

/-- What a form **finds in the words it accepts**: whether the state is saved before, the keyword
and the operands. -/
inductive Reads {α : Type} (operand : List Char → α → Prop) :
    Form → List (List Char) → Bool → List Char → List α → Prop
  | plain {f : Form} {args : List (List Char)} {xs : List α} {keyword : List Char} :
      f ≠ restore → List.Forall₂ operand args xs → xs.length = f.arity → keyword ∈ f.keywords →
      Reads operand f (args ++ [keyword]) false keyword xs
  | saving {args : List (List Char)} {xs : List α} :
      List.Forall₂ operand args xs → xs.length = 6 →
      Reads operand transform (['q'] :: (args ++ [['c', 'm']])) true ['c', 'm'] xs
  | ending {keyword : List Char} :
      keyword ∈ clip.keywords → Reads operand clip [keyword, ['n']] false keyword []
  | restoring {ws : List (List Char)} : ['Q'] ∈ ws → Reads operand restore ws false ['Q'] []

/-! ### The forms accept what the relation says -/

theorem mapM_eq_some_iff {α β : Type} {f : α → Option β} {as : List α} {bs : List β} :
    as.mapM f = some bs ↔ List.Forall₂ (fun a b => f a = some b) as bs := by
  induction as generalizing bs with
  | nil =>
      rw [List.mapM_nil, List.forall₂_nil_left_iff]
      exact ⟨fun h => (Option.some.inj h).symm, fun h => congrArg some h.symm⟩
  | cons a as ih =>
      rw [List.mapM_cons, List.forall₂_cons_left_iff]
      simp only [Option.bind_eq_bind, Option.bind_eq_some_iff, ih, Option.pure_def,
        Option.some.injEq]
      constructor
      · rintro ⟨b, hb, bs', hbs, rfl⟩
        exact ⟨b, bs', hb, hbs, rfl⟩
      · rintro ⟨b, bs', hb, hbs, rfl⟩
        exact ⟨b, hb, bs', hbs, rfl⟩

theorem readNumerals_eq_some_iff {args : List (List Char)} {ns : List Numeral} :
    args.mapM Numeral.read? = some ns ↔ List.Forall₂ Numeral.Spelling args ns := by
  simp only [mapM_eq_some_iff, Numeral.read?_eq_some_iff]

theorem readPlain?_eq_some_iff {f : Form} {ws : List (List Char)} {r : Reading} :
    f.readPlain? ws = some r ↔
      r.saving = false ∧ r.operands.length = f.arity ∧ r.keyword ∈ f.keywords ∧
        ∃ args, ws = args ++ [r.keyword] ∧ List.Forall₂ Numeral.Spelling args r.operands := by
  unfold readPlain?
  constructor
  · intro h
    split at h
    · next keyword operands hkeyword hoperands =>
        split at h
        · next hf =>
            obtain rfl := Option.some.inj h
            refine ⟨rfl, hf.1, hf.2, ws.dropLast, ?_, readNumerals_eq_some_iff.1 hoperands⟩
            exact (List.dropLast_append_getLast? keyword hkeyword).symm
        · cases h
    · cases h
  · rintro ⟨hsaving, hlength, hkeyword, args, rfl, hargs⟩
    obtain ⟨saving, operands, keyword⟩ := r
    obtain rfl := hsaving
    rw [List.getLast?_concat, List.dropLast_concat, readNumerals_eq_some_iff.2 hargs]
    exact if_pos ⟨hlength, hkeyword⟩

theorem plain_of_readPlain? {f : Form} {ws : List (List Char)} {r : Reading} (hf : f ≠ restore)
    (h : f.readPlain? ws = some r) :
    Reads Numeral.Spelling f ws r.saving r.keyword r.operands := by
  obtain ⟨hsaving, hlength, hkeyword, args, rfl, hargs⟩ := readPlain?_eq_some_iff.1 h
  rw [hsaving]
  exact .plain hf hargs hlength hkeyword

/-- No numeral is spelled like the word for saving. -/
theorem not_spelling_save (n : Numeral) : ¬ Numeral.Spelling ['q'] n := by
  intro h
  have hread : Numeral.read? ['q'] = none := by decide
  rw [Numeral.read?_eq_some_iff.2 h] at hread
  cases hread

theorem not_spelling_restore (n : Numeral) : ¬ Numeral.Spelling ['Q'] n := by
  intro h
  have hread : Numeral.read? ['Q'] = none := by decide
  rw [Numeral.read?_eq_some_iff.2 h] at hread
  cases hread

theorem reads_of_read? {f : Form} {ws : List (List Char)} {r : Reading} (h : f.read? ws = some r) :
    Reads Numeral.Spelling f ws r.saving r.keyword r.operands := by
  unfold read? at h
  split at h
  · -- a matrix, after the word for saving or without it
    split at h
    · obtain ⟨r', hr', rfl⟩ := Option.map_eq_some_iff.1 h
      obtain ⟨-, hlength, hkeyword, args, rfl, hargs⟩ := readPlain?_eq_some_iff.1 hr'
      obtain hkeyword := List.mem_singleton.1 hkeyword
      dsimp only
      rw [hkeyword]
      exact .saving hargs hlength
    · exact plain_of_readPlain? nofun h
  · -- a clip, before the word that ends the path or without it
    split at h
    · next keyword =>
        obtain ⟨hsaving, hlength, hkeyword, args, hws, hargs⟩ := readPlain?_eq_some_iff.1 h
        have hnil : r.operands = [] := List.length_eq_zero_iff.1 hlength
        rw [hnil] at hargs ⊢
        obtain rfl := List.forall₂_nil_right_iff.1 hargs
        obtain rfl : keyword = r.keyword := List.head_eq_of_cons_eq hws
        rw [hsaving]
        exact .ending hkeyword
    · exact plain_of_readPlain? nofun h
  · split at h
    · next hrestore =>
        obtain rfl := Option.some.inj h
        exact .restoring hrestore
    · cases h
  · next hrestore => exact plain_of_readPlain? hrestore h

theorem Reads.read? {f : Form} {ws : List (List Char)} {saving : Bool} {keyword : List Char}
    {ns : List Numeral} (h : Reads Numeral.Spelling f ws saving keyword ns) :
    f.read? ws = some ⟨saving, ns, keyword⟩ := by
  unfold Form.read?
  cases h with
  | @plain f args ns keyword hf hargs hlength hkeyword =>
      have hplain : f.readPlain? (args ++ [keyword]) = some ⟨false, ns, keyword⟩ :=
        readPlain?_eq_some_iff.2 ⟨rfl, hlength, hkeyword, args, rfl, hargs⟩
      split
      · split
        · next rest hws =>
            -- the first of the six operands would be the word for saving
            cases hargs with
            | nil => cases hlength
            | cons hfirst hargs =>
                obtain rfl := List.head_eq_of_cons_eq hws
                exact absurd hfirst (not_spelling_save _)
        · exact hplain
      · split
        · next keyword' hws =>
            -- a clip without the end of the path is one word only
            have hlength' := congrArg List.length hws
            have hsame := hargs.length_eq
            simp only [List.length_append, List.length_cons, List.length_nil] at hlength'
            rw [hsame, hlength] at hlength'
            cases hlength'
        · exact hplain
      · exact absurd rfl hf
      · exact hplain
  | @saving args ns hargs hlength =>
      have hplain : transform.readPlain? (args ++ [['c', 'm']]) = some ⟨false, ns, ['c', 'm']⟩ :=
        readPlain?_eq_some_iff.2 ⟨rfl, hlength, List.mem_singleton_self _, args, rfl, hargs⟩
      exact congrArg (Option.map ({ · with saving := true })) hplain
  | ending hkeyword =>
      exact readPlain?_eq_some_iff.2 ⟨rfl, rfl, hkeyword, [], rfl, .nil⟩
  | restoring hrestore => exact if_pos hrestore

/-! ### At most one form accepts -/

/-- The form with a keyword. -/
def ofKeyword? (keyword : List Char) : Option Form :=
  priority.find? fun f => f.keywords.contains keyword

/-- The only form that can accept the words. -/
def ofWords? (ws : List (List Char)) : Option Form :=
  if ws.contains ['Q'] then some restore
  else if ws.length = 2 ∧ ws.getLast? = some ['n'] then some clip
  else ws.getLast?.bind ofKeyword?

theorem mem_priority (f : Form) : f ∈ priority := by
  cases f <;> decide

/-- No two forms share a keyword. -/
theorem ofKeyword?_eq {f : Form} {keyword : List Char} (h : keyword ∈ f.keywords) :
    ofKeyword? keyword = some f := by
  have hall : ∀ f ∈ priority, ∀ keyword ∈ f.keywords, ofKeyword? keyword = some f := by decide
  exact hall f (mem_priority f) keyword h

theorem arity_of_endPath {f : Form} (h : ['n'] ∈ f.keywords) : f.arity = 0 := by
  have hendPath : some endPath = some f := ofKeyword?_eq h
  obtain rfl := Option.some.inj hendPath
  rfl

theorem forall₂_not_mem {α β : Type} {R : α → β → Prop} {as : List α} {bs : List β}
    (h : List.Forall₂ R as bs) {a : α} (ha : ∀ b, ¬ R a b) : a ∉ as := by
  induction h with
  | nil => exact List.not_mem_nil
  | cons hR _ ih =>
      rw [List.mem_cons, not_or]
      exact ⟨fun heq => ha _ (heq ▸ hR), ih⟩

/-- Words that are accepted **determine the form**. -/
theorem Reads.ofWords?_eq {f : Form} {ws : List (List Char)} {saving : Bool} {keyword : List Char}
    {ns : List Numeral} (h : Reads Numeral.Spelling f ws saving keyword ns) :
    ofWords? ws = some f := by
  unfold ofWords?
  simp only [List.contains_iff_mem]
  cases h with
  | @plain f args ns keyword hf hargs hlength hkeyword =>
      have hrestore : ['Q'] ∉ args ++ [keyword] := by
        rw [List.mem_append, List.mem_singleton, not_or]
        refine ⟨forall₂_not_mem hargs not_spelling_restore, ?_⟩
        rintro rfl
        exact hf (Option.some.inj (ofKeyword?_eq hkeyword)).symm
      have hclip :
          ¬ ((args ++ [keyword]).length = 2 ∧ (args ++ [keyword]).getLast? = some ['n']) := by
        rintro ⟨htwo, hend⟩
        rw [List.getLast?_concat] at hend
        rw [Option.some.inj hend] at hkeyword
        rw [List.length_append, hargs.length_eq, hlength, arity_of_endPath hkeyword] at htwo
        cases htwo
      rw [if_neg hrestore, if_neg hclip, List.getLast?_concat]
      exact ofKeyword?_eq hkeyword
  | @saving args ns hargs hlength =>
      have hrestore : ['Q'] ∉ ['q'] :: (args ++ [['c', 'm']]) := by
        rw [List.mem_cons, List.mem_append, not_or, not_or]
        exact ⟨by decide, forall₂_not_mem hargs not_spelling_restore, by decide⟩
      have hlast : (['q'] :: (args ++ [['c', 'm']])).getLast? = some ['c', 'm'] := by
        rw [← List.cons_append, List.getLast?_concat]
      rw [if_neg hrestore, hlast, if_neg (by rintro ⟨-, hend⟩; cases hend)]
      rfl
  | ending hkeyword =>
      have hrestore : ∀ keyword ∈ clip.keywords, ['Q'] ∉ [keyword, ['n']] := by decide
      rw [if_neg (hrestore _ hkeyword)]
      rfl
  | restoring hrestore => exact if_pos hrestore

end Form

/-- Tried in **any order**, the forms read words as an operator exactly if one of them does. -/
theorem classifyWords_eq_some_iff {forms : List Form} (hforms : ∀ f, f ∈ forms)
    {ws : List (List Char)} {op : Operator Float} :
    classifyWords forms ws = some op ↔
      ∃ (f : Form) (r : Reading), f.read? ws = some r ∧ f.build r = some op := by
  unfold classifyWords
  constructor
  · intro h
    split at h
    · next f r hfind =>
        obtain ⟨g, -, hg⟩ := List.exists_of_findSome?_eq_some hfind
        obtain ⟨r', hr', heq⟩ := Option.map_eq_some_iff.1 hg
        obtain ⟨rfl, rfl⟩ := Prod.mk.inj heq
        exact ⟨g, r', hr', h⟩
    · cases h
  · rintro ⟨f, r, hr, hop⟩
    split
    · -- the form that is found first accepts the same words, so it is this form
      next g r' hfind =>
        obtain ⟨g', -, hg⟩ := List.exists_of_findSome?_eq_some hfind
        obtain ⟨r'', hr'', heq⟩ := Option.map_eq_some_iff.1 hg
        obtain ⟨rfl, rfl⟩ := Prod.mk.inj heq
        have hform := (Form.reads_of_read? hr).ofWords?_eq
        rw [(Form.reads_of_read? hr'').ofWords?_eq] at hform
        obtain rfl := Option.some.inj hform
        rw [hr] at hr''
        obtain rfl := Option.some.inj hr''
        exact hop
    · next hfind =>
        have hnone := List.findSome?_eq_none_iff.1 hfind f (hforms f)
        rw [hr] at hnone
        cases hnone

end Artwork
