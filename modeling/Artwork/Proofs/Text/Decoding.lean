import Artwork.Import.Stream
import Artwork.Proofs.Text.Pieces

/-!
**Decoding does not reach across lines.**

Bytes are decoded one after the other, and what is carried along is a sequence that is not complete
yet.  Every byte that a sequence waits for is beyond ASCII, so an ASCII byte breaks the sequence off
and stands for itself; and no sequence gives a character that ends a line.  Hence a file can be cut
into lines before or after it is decoded, with the same result for every file, well formed or not.

Main definitions:

* `Utf8.decodeAfter` — decoding by recursion over the bytes, after an incomplete sequence;
* `Utf8.Partial.Sound` — **the invariant** of incomplete sequences;
* `isLineBreakByte` — the bytes that end a line.

Main results:

* `Utf8.step_of_lt`, `Utf8.step_of_le` — what a byte of ASCII does, and one beyond it;
* `Utf8.decode_append_cons` — an ASCII byte separates what is decoded before and after it;
* `lines_decode` — **the lines of a file** are its pieces, each decoded on its own.
-/

set_option relaxedAutoImplicit false
set_option autoImplicit false

namespace Artwork

/-- No character beyond ASCII ends a line. -/
theorem isLineBreak_ofNat {n : Nat} (hn : 0x80 ≤ n) : isLineBreak (Char.ofNat n) = false := by
  rw [← Bool.not_eq_true]
  intro hbreak
  have hsmall : (Char.ofNat n).toNat = 0x0d ∨ (Char.ofNat n).toNat = 0x0a := by
    rw [isLineBreak, Bool.or_eq_true, beq_iff_eq, beq_iff_eq] at hbreak
    rcases hbreak with hbreak | hbreak <;> rw [hbreak] <;> decide
  -- a number that is no character stands for the character zero
  have hvalue : (Char.ofNat n).toNat = n ∨ (Char.ofNat n).toNat = 0 := by
    by_cases hvalid : n.isValidChar
    · exact Or.inl (by rw [Char.ofNat, dif_pos hvalid]; rfl)
    · exact Or.inr (by rw [Char.ofNat, dif_neg hvalid]; rfl)
  omega

namespace Utf8

/-! ### Decoding as a recursion -/

/-- What an incomplete sequence becomes if nothing completes it. -/
def brokenOff (p : Option Partial) : List Char :=
  if p.isSome then [replacement] else []

/-- The characters of bytes that come after an incomplete sequence. -/
def decodeAfter : Option Partial → List UInt8 → List Char
  | p, [] => brokenOff p
  | p, b :: bs => (step p b.toNat).1 ++ decodeAfter (step p b.toNat).2 bs

@[simp] theorem decodeAfter_nil (p : Option Partial) : decodeAfter p [] = brokenOff p := rfl

theorem decodeAfter_cons (p : Option Partial) (b : UInt8) (bs : List UInt8) :
    decodeAfter p (b :: bs) = (step p b.toNat).1 ++ decodeAfter (step p b.toNat).2 bs := rfl

/-- Decoding is the recursion that begins without an incomplete sequence. -/
theorem decode_eq_decodeAfter (bytes : List UInt8) : decode bytes = decodeAfter none bytes := by
  -- the fold keeps the characters so far in reverse order
  suffices h : ∀ (state : List Char × Option Partial),
      (bytes.foldl push state).1.reverse ++ brokenOff (bytes.foldl push state).2 =
        state.1.reverse ++ decodeAfter state.2 bytes from h ([], none)
  induction bytes with
  | nil => exact fun state => rfl
  | cons b bs ih =>
      intro state
      rw [List.foldl_cons, ih, decodeAfter, push, List.reverse_append, List.reverse_reverse,
        List.append_assoc]

/-! ### One byte -/

/-- What holds of every incomplete sequence: it waits for a byte beyond ASCII, and it leads to a
character **beyond ASCII**, because its value is not too small or the next byte will raise it. -/
structure Partial.Sound (p : Partial) : Prop where
  low : 0x80 ≤ p.low
  value : 2 ≤ p.value ∨ 2 ≤ p.missing ∧ 0x82 ≤ p.value * 64 + p.low

theorem sound_none : ∀ q ∈ (none : Option Partial), q.Sound := by
  simp

theorem lead_of_lt {b : Nat} (hb : b < 0x80) : lead b = ([Char.ofNat b], none) := by
  rw [lead, if_pos hb]

/-- A byte beyond ASCII begins a sequence, or it cannot be read. -/
theorem lead_of_le {b : Nat} (hb : 0x80 ≤ b) :
    lead b = ([replacement], none) ∨ ∃ q : Partial, lead b = ([], some q) ∧ q.Sound := by
  simp only [lead, if_neg (Nat.not_lt.2 hb), beq_iff_eq]
  repeat' split
  · exact Or.inl rfl
  · refine Or.inr ⟨_, rfl, Nat.le_refl _, Or.inl ?_⟩
    dsimp only
    omega
  · exact Or.inr ⟨_, rfl, by decide, Or.inr (by decide)⟩
  · exact Or.inr ⟨_, rfl, Nat.le_refl _, Or.inl (by decide)⟩
  · refine Or.inr ⟨_, rfl, Nat.le_refl _, Or.inr ?_⟩
    dsimp only
    omega
  · exact Or.inr ⟨_, rfl, by decide, Or.inr (by decide)⟩
  · refine Or.inr ⟨_, rfl, Nat.le_refl _, Or.inr ?_⟩
    dsimp only
    omega
  · exact Or.inr ⟨_, rfl, Nat.le_refl _, Or.inl (by decide)⟩
  · exact Or.inl rfl

/-- A byte of ASCII breaks a sequence off and **stands for itself**. -/
theorem step_of_lt {p : Option Partial} (hp : ∀ q ∈ p, q.Sound) {b : Nat} (hb : b < 0x80) :
    step p b = (brokenOff p ++ [Char.ofNat b], none) := by
  cases p with
  | none => exact lead_of_lt hb
  | some p =>
      have hlow := (hp p rfl).low
      have hout : ¬ (p.low ≤ b && b ≤ p.high) = true := by
        rw [Bool.and_eq_true, decide_eq_true_eq, decide_eq_true_eq]
        omega
      rw [step, if_neg hout, lead_of_lt hb]
      rfl

/-- What a byte beyond ASCII gives: no character that ends a line, and a character at least or else an
incomplete sequence, which is sound. -/
structure Inner (result : List Char × Option Partial) : Prop where
  sound : ∀ q ∈ result.2, q.Sound
  isLineBreak : ∀ c ∈ result.1, isLineBreak c = false
  trace : result.1 = [] → result.2.isSome = true

theorem inner_lead {b : Nat} (hb : 0x80 ≤ b) : Inner (lead b) := by
  rcases lead_of_le hb with h | ⟨q, h, hq⟩
  · rw [h]
    exact ⟨nofun, List.forall_mem_singleton.2 (by decide), nofun⟩
  · rw [h]
    exact ⟨fun q' hq' => Option.mem_some.1 hq' ▸ hq, nofun, fun _ => rfl⟩

theorem step_of_le {p : Option Partial} (hp : ∀ q ∈ p, q.Sound) {b : Nat} (hb : 0x80 ≤ b) :
    Inner (step p b) := by
  cases p with
  | none => exact inner_lead hb
  | some p =>
      have hsound := hp p rfl
      unfold step
      dsimp only
      split
      · next hin =>
          rw [Bool.and_eq_true, decide_eq_true_eq, decide_eq_true_eq] at hin
          have hlow := hsound.low
          have hvalue := hsound.value
          split
          · -- the sequence is complete, and its value has grown beyond ASCII
            refine ⟨nofun, fun c hc => ?_, nofun⟩
            rw [List.mem_singleton.1 hc]
            exact isLineBreak_ofNat (by omega)
          · refine ⟨fun q hq => ?_, nofun, fun _ => rfl⟩
            rw [← Option.mem_some.1 hq]
            exact ⟨Nat.le_refl _, Or.inl (by dsimp only; omega)⟩
      · have hlead := inner_lead hb
        refine ⟨hlead.sound, fun c hc => ?_, nofun⟩
        rcases List.mem_cons.1 hc with rfl | hc
        · decide
        · exact hlead.isLineBreak c hc

/-! ### Bytes in a row -/

/-- Every byte leaves an incomplete sequence sound. -/
theorem sound_step {p : Option Partial} (hp : ∀ q ∈ p, q.Sound) (b : Nat) :
    ∀ q ∈ (step p b).2, q.Sound := by
  rcases Nat.lt_or_ge b 0x80 with hb | hb
  · rw [step_of_lt hp hb]
    nofun
  · exact (step_of_le hp hb).sound

theorem decodeAfter_append_cons {p : Option Partial} (hp : ∀ q ∈ p, q.Sound) (as bs : List UInt8)
    {b : UInt8} (hb : b.toNat < 0x80) :
    decodeAfter p (as ++ b :: bs) = decodeAfter p as ++ Char.ofNat b.toNat :: decodeAfter none bs := by
  induction as generalizing p with
  | nil =>
      rw [List.nil_append, decodeAfter_cons, step_of_lt hp hb, decodeAfter_nil, List.append_assoc,
        List.singleton_append]
  | cons a as ih =>
      rw [List.cons_append, decodeAfter_cons, ih (sound_step hp _), decodeAfter_cons,
        List.append_assoc]

/-- An ASCII byte **separates what is decoded** before and after it. -/
theorem decode_append_cons (as bs : List UInt8) {b : UInt8} (hb : b.toNat < 0x80) :
    decode (as ++ b :: bs) = decode as ++ Char.ofNat b.toNat :: decode bs := by
  simp only [decode_eq_decodeAfter]
  exact decodeAfter_append_cons sound_none as bs hb

theorem decodeAfter_ne_nil {p : Option Partial} (hp : ∀ q ∈ p, q.Sound) (bytes : List UInt8)
    (h : p.isSome = true ∨ bytes ≠ []) : decodeAfter p bytes ≠ [] := by
  induction bytes generalizing p with
  | nil =>
      have hsome : p.isSome = true := h.resolve_right (fun hne => hne rfl)
      simp [brokenOff, hsome]
  | cons b bytes ih =>
      rw [decodeAfter_cons, ne_eq, List.append_eq_nil_iff, not_and]
      intro hnone
      refine ih (sound_step hp _) (Or.inl ?_)
      rcases Nat.lt_or_ge b.toNat 0x80 with hb | hb
      · rw [step_of_lt hp hb] at hnone
        simp at hnone
      · exact (step_of_le hp hb).trace hnone

end Utf8

/-! ### Lines -/

/-- The bytes that end a line. -/
def isLineBreakByte (b : UInt8) : Bool :=
  b == 0x0d || b == 0x0a

theorem toNat_lt_of_isLineBreakByte {b : UInt8} (hb : isLineBreakByte b = true) :
    b.toNat < 0x80 := by
  rw [isLineBreakByte, Bool.or_eq_true, beq_iff_eq, beq_iff_eq] at hb
  rcases hb with rfl | rfl <;> decide

/-- A byte of ASCII ends a line exactly if its character does. -/
theorem isLineBreak_ofNat_toNat {b : UInt8} (hb : b.toNat < 0x80) :
    isLineBreak (Char.ofNat b.toNat) = isLineBreakByte b := by
  have hall : ∀ n < 0x80, isLineBreak (Char.ofNat n) = (n == 0x0d || n == 0x0a) := by decide
  have hbyte : ∀ n < 0x100, (b.toNat == n) = (b == UInt8.ofNat n) := by
    intro n hn
    rw [Bool.eq_iff_iff, beq_iff_eq, beq_iff_eq, ← UInt8.toNat_inj, UInt8.toNat_ofNat_of_lt' hn]
  rw [hall _ hb, hbyte 0x0d (by decide), hbyte 0x0a (by decide)]
  rfl

namespace Utf8

/-- Where no byte ends a line, no character does. -/
theorem isLineBreak_of_mem_decodeAfter {p : Option Partial} (hp : ∀ q ∈ p, q.Sound)
    {bytes : List UInt8} (hbytes : ∀ b ∈ bytes, isLineBreakByte b = false) :
    ∀ c ∈ decodeAfter p bytes, isLineBreak c = false := by
  have hbroken : ∀ p, ∀ c ∈ brokenOff p, isLineBreak c = false := by
    intro p c hc
    cases p with
    | none => cases hc
    | some p =>
        rw [List.mem_singleton.1 hc]
        decide
  induction bytes generalizing p with
  | nil => exact hbroken p
  | cons b bytes ih =>
      obtain ⟨hb, hbytes⟩ := List.forall_mem_cons.1 hbytes
      intro c hc
      rcases List.mem_append.1 hc with hc | hc
      · rcases Nat.lt_or_ge b.toNat 0x80 with hlt | hge
        · rw [step_of_lt hp hlt] at hc
          rcases List.mem_append.1 hc with hc | hc
          · exact hbroken p c hc
          · rw [List.mem_singleton.1 hc, isLineBreak_ofNat_toNat hlt, hb]
        · exact (step_of_le hp hge).isLineBreak c hc
      · exact ih (sound_step hp _) hbytes c hc

end Utf8

/-- Line breaks in front are decoded one by one. -/
theorem decode_gap_append {gap : List UInt8} (hgap : ∀ b ∈ gap, isLineBreakByte b = true)
    (bytes : List UInt8) :
    Utf8.decode (gap ++ bytes) = gap.map (Char.ofNat ·.toNat) ++ Utf8.decode bytes := by
  induction gap with
  | nil => rfl
  | cons b gap ih =>
      obtain ⟨hb, hgap⟩ := List.forall_mem_cons.1 hgap
      have hcons := Utf8.decode_append_cons [] (gap ++ bytes) (toNat_lt_of_isLineBreakByte hb)
      rw [List.cons_append, List.map_cons, List.cons_append, ← ih hgap]
      exact hcons

/-- What is cut into pieces before it is decoded is cut in the same way afterwards. -/
theorem Cut.decode {bytes : List UInt8} {pieces : List (List UInt8)}
    (h : Cut isLineBreakByte bytes pieces) :
    Cut isLineBreak (Utf8.decode bytes) (pieces.map Utf8.decode) := by
  have hchars : ∀ gap : List UInt8, (∀ b ∈ gap, isLineBreakByte b = true) →
      ∀ c ∈ gap.map (Char.ofNat ·.toNat), isLineBreak c = true := by
    intro gap hgap c hc
    obtain ⟨b, hb, rfl⟩ := List.mem_map.1 hc
    rw [isLineBreak_ofNat_toNat (toNat_lt_of_isLineBreakByte (hgap b hb)), hgap b hb]
  induction h with
  | @gap gap hgap =>
      have hdecode := decode_gap_append hgap []
      rw [List.append_nil] at hdecode
      rw [hdecode]
      exact .gap (by simpa [Utf8.decode] using hchars gap hgap)
  | @run gap run rest pieces hgap hne hrun hrest _ ih =>
      -- a piece ends with the bytes, or a line break comes after it
      have hsplit : Utf8.decode (run ++ rest) = Utf8.decode run ++ Utf8.decode rest ∧
          ∀ c, (Utf8.decode rest).head? = some c → isLineBreak c = true := by
        cases rest with
        | nil => exact ⟨by simp [Utf8.decode], nofun⟩
        | cons b rest =>
            have hb := hrest b rfl
            have hascii := toNat_lt_of_isLineBreakByte hb
            have hfirst : Utf8.decode (b :: rest) = Char.ofNat b.toNat :: Utf8.decode rest :=
              Utf8.decode_append_cons [] rest hascii
            rw [Utf8.decode_append_cons run rest hascii, hfirst]
            refine ⟨rfl, fun c hc => ?_⟩
            rw [← Option.some.inj hc, isLineBreak_ofNat_toNat hascii, hb]
      rw [decode_gap_append hgap, hsplit.1, List.map_cons]
      refine .run (hchars gap hgap) ?_ ?_ hsplit.2 ih
      · rw [Utf8.decode_eq_decodeAfter]
        exact Utf8.decodeAfter_ne_nil Utf8.sound_none run (Or.inr hne)
      · rw [Utf8.decode_eq_decodeAfter]
        exact Utf8.isLineBreak_of_mem_decodeAfter Utf8.sound_none hrun

/-- **The lines of a file** are the pieces between its line breaks, each decoded on its own. -/
theorem lines_decode (bytes : List UInt8) :
    lines (Utf8.decode bytes) = (runs isLineBreakByte bytes).map Utf8.decode :=
  (cut_runs isLineBreakByte bytes).decode.eq_runs.symm

end Artwork
