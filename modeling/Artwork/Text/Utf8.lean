/-!
**Reading bytes as text.**

Bytes are read as UTF-8.  Where they are not well formed, each longest beginning of a sequence that
cannot be completed becomes one replacement character, and so does each byte that begins no sequence.

Main definitions:

* `Utf8.Partial` — a sequence that is not complete yet;
* `Utf8.step` — one more byte;
* `Utf8.decode` — **bytes as characters**.
-/

set_option relaxedAutoImplicit false
set_option autoImplicit false

namespace Artwork.Utf8

/-- A sequence that is not complete yet: its value so far, how many bytes are missing, and the range
of the next of them. -/
structure Partial where
  value : Nat
  missing : Nat
  low : Nat
  high : Nat
  deriving Repr, DecidableEq

/-- The character that stands for what cannot be read. -/
def replacement : Char := '\uFFFD'

/-- Reads a byte that begins a sequence. -/
def lead (b : Nat) : List Char × Option Partial :=
  if b < 0x80 then ([Char.ofNat b], none)
  else if b < 0xc2 then ([replacement], none)
  else if b < 0xe0 then ([], some ⟨b - 0xc0, 1, 0x80, 0xbf⟩)
  else if b == 0xe0 then ([], some ⟨0, 2, 0xa0, 0xbf⟩)
  else if b == 0xed then ([], some ⟨0xd, 2, 0x80, 0x9f⟩)
  else if b < 0xf0 then ([], some ⟨b - 0xe0, 2, 0x80, 0xbf⟩)
  else if b == 0xf0 then ([], some ⟨0, 3, 0x90, 0xbf⟩)
  else if b < 0xf4 then ([], some ⟨b - 0xf0, 3, 0x80, 0xbf⟩)
  else if b == 0xf4 then ([], some ⟨4, 3, 0x80, 0x8f⟩)
  else ([replacement], none)

/-- Reads one more byte: the characters that are complete with it, and the sequence it leaves
incomplete. -/
def step (p : Option Partial) (b : Nat) : List Char × Option Partial :=
  match p with
  | none => lead b
  | some p =>
    if p.low ≤ b && b ≤ p.high then
      let value := p.value * 64 + (b - 0x80)
      if p.missing ≤ 1 then ([Char.ofNat value], none)
      else ([], some ⟨value, p.missing - 1, 0x80, 0xbf⟩)
    else
      let (characters, next) := lead b
      (replacement :: characters, next)

/-- Reads a byte after the characters read so far, which are in reverse order. -/
def push (state : List Char × Option Partial) (b : UInt8) : List Char × Option Partial :=
  let (characters, next) := step state.2 b.toNat
  (characters.reverse ++ state.1, next)

/-- **Bytes as characters.** -/
def decode (bytes : List UInt8) : List Char :=
  let (characters, rest) := bytes.foldl push ([], none)
  characters.reverse ++ if rest.isSome then [replacement] else []

end Artwork.Utf8
