import Artwork.Proofs.Import.Run
import Artwork.Proofs.Text.Decoding

/-!
**Bytes that cannot be read stay on their line.**

The import of a file decodes all of it and cuts the text into lines.  Cutting the bytes first and
decoding every piece on its own gives the same lines, so what is wrong in the bytes of one line has
no effect on the operators of the other lines.

Main definitions:

* `byteLines` — the lines of a file, cut before it is decoded;
* `importByteLines` — an import that decodes **line by line**;
* `fileOperators` — the operators of a file, line by line.

Main results:

* `importFile_byteLines` — **both imports are the same**, for every file.
-/

set_option relaxedAutoImplicit false
set_option autoImplicit false

namespace Artwork

/-- The lines of a file before it is decoded: what is between the bytes that end a line, without
the empty pieces. -/
def byteLines (bytes : List UInt8) : List (List UInt8) :=
  (bytes.splitOnP isLineBreakByte).filter (!·.isEmpty)

/-- Imports lines **that are decoded one by one**. -/
def importByteLines (union : ContourUnion Float) (options : ImportOptions)
    (pieces : List (List UInt8)) : Except ImportError Layout :=
  (Context.start options).map fun c =>
    (pieces.foldl (fun c piece => c.applyLine union (Utf8.decode piece)) c).finish

/-- The operators of a file, line by line; a line may be no operator. -/
def fileOperators (bytes : List UInt8) : List (Option (Operator Float)) :=
  (lines (Utf8.decode bytes)).map classify

theorem importWith_decode (union : ContourUnion Float) (options : ImportOptions)
    (bytes : List UInt8) :
    (importWith union options (fun _ => false) (Utf8.decode bytes)).1 =
      importByteLines union options (byteLines bytes) := by
  by_cases hsteps : options.curveSteps = 0
  · rw [importWith_of_curveSteps_eq_zero union hsteps, importByteLines, Context.start,
      if_pos hsteps]
    rfl
  · rw [importWith_never union hsteps, lines_decode, runs_eq_filter_splitOnP, importByteLines,
      Context.start, if_neg hsteps, ImportRun.layout, Context.after, List.foldl_map]
    rfl

/-- The operators of the other lines do not depend on a line. -/
theorem fileOperators_append {before line after : List UInt8}
    (h : IsPiece isLineBreakByte before line after) :
    fileOperators (before ++ (line ++ after)) =
      fileOperators before ++
        ((if line.isEmpty then [] else [classify (Utf8.decode line)]) ++ fileOperators after) := by
  unfold fileOperators
  rw [lines_decode, lines_decode, lines_decode, h.runs_append, List.map_append, List.map_append,
    consRun]
  cases line <;> rfl

/-- **Bytes that cannot be read stay on their line.**  The import of a file is the import of its
lines, each decoded on its own; and a line gives its own operator, whatever its bytes are, between
the operators of the lines before and after it. -/
theorem importFile_byteLines (union : ContourUnion Float) (options : ImportOptions)
    (bytes : List UInt8) :
    importFile union options (.ok bytes) =
        importByteLines union options (byteLines bytes) ∧
      ∀ before line after, IsPiece isLineBreakByte before line after →
        fileOperators (before ++ (line ++ after)) =
          fileOperators before ++
            ((if line.isEmpty then [] else [classify (Utf8.decode line)]) ++ fileOperators after) :=
  ⟨importWith_decode union options bytes, fun _ _ _ => fileOperators_append⟩

/-- The bytes of `0 0 m`, and the first two bytes of a sequence of three. -/
def brokenLine : List UInt8 :=
  [0x30, 0x20, 0x30, 0x20, 0x6d, 0xe2, 0x82]

theorem importFile_byteLines_brokenLine :
    IsPiece isLineBreakByte [0x71, 0x0a] brokenLine [0x0d, 0x51] ∧
      Utf8.decode brokenLine = "0 0 m\uFFFD".toList ∧
      fileOperators ([0x71, 0x0a] ++ (brokenLine ++ [0x0d, 0x51])) =
        fileOperators [0x71, 0x0a] ++ ([classify (Utf8.decode brokenLine)] ++
          fileOperators [0x0d, 0x51]) ∧
      fileOperators ([0x71, 0x0a] ++ (brokenLine ++ [0x0d, 0x51])) =
        [some .save, none, some .restore] ∧
      importFile separateShapes {} (.ok ([0x71, 0x0a] ++ (brokenLine ++ [0x0d, 0x51]))) =
        importByteLines separateShapes {} [[0x71], brokenLine, [0x51]] := by
  have hpiece : IsPiece isLineBreakByte [0x71, 0x0a] brokenLine [0x0d, 0x51] :=
    ⟨by rintro b ⟨⟩; rfl, by simp [brokenLine, isLineBreakByte], by rintro b ⟨⟩; rfl⟩
  have hlines : byteLines ([0x71, 0x0a] ++ (brokenLine ++ [0x0d, 0x51])) =
      [[0x71], brokenLine, [0x51]] := by decide +kernel
  obtain ⟨himport, hoperators⟩ :=
    importFile_byteLines separateShapes {} ([0x71, 0x0a] ++ (brokenLine ++ [0x0d, 0x51]))
  rw [hlines] at himport
  exact ⟨hpiece, by decide +kernel, hoperators _ _ _ hpiece, by decide +kernel, himport⟩

end Artwork
