import SignalFxTracing.Il.Export
import SignalFxTracing.Il.Import
import SignalFxTracing.Il.MaxStack

/-!
# The exported body (`ILRewriter::Export`)

Behind the encoding loop a body with a fat header is put together: the code, and
the exception clauses with the offsets that their places have been given.

## Implementation notes

The body is given as it is read again. The size of the clauses is a field of 24
bits, from which the reader takes their number.
-/

namespace SignalFxTracing.Il

/-- `CorILMethod_FatFormat`. -/
def corILMethodFatFormat : UInt32 := 0x3

/-- `CorILMethod_MoreSects`. -/
def corILMethodMoreSects : UInt32 := 0x8

namespace Encoder

variable (e : Encoder)

/-- A clause with its places as offsets. -/
def exportClause (c : EHClause) : FatClause where
  flags := c.flags
  tryOffset := e.offsetOf c.tryBegin
  tryLength := e.offsetOf c.tryEnd - e.offsetOf c.tryBegin
  handlerOffset := e.offsetOf c.handlerBegin
  handlerLength := e.offsetOf (nextRef e.il c.handlerEnd) - e.offsetOf c.handlerBegin
  classTokenOrFilterOffset :=
    match c.classOrFilter with
    | .classToken token => token
    | .filter begin_ => e.offsetOf begin_

/-- `codeSize`, the offset behind the last instruction. -/
def codeSize : UInt32 := e.offsetOf .sentinel

end Encoder

/-- `DataSize` of the section of `n` clauses. -/
def ehDataSize (n : Nat) : Nat := (4 + 24 * n) % 2 ^ 24

/-- The section of the clauses, of which as many are read as its size has room for. -/
def exportEH (clauses : List FatClause) : EHSection :=
  if clauses = [] then .none else .fat (clauses.take (ehDataSize clauses.length / 24))

/-- The body that `Export` hands over when the loop has ended with `e`. -/
def ILRewriter.exportBody (r : ILRewriter) (e : Encoder) : IlMethod where
  header := .fat
    (r.flags ||| (if r.eh = [] then 0 else corILMethodMoreSects) |||
      corILMethodFatFormat).toUInt16
    r.exportedMaxStack r.tkLocalVarSig
  code := e.out.slice 0 e.codeSize.toNat
  eh := exportEH (r.eh.map e.exportClause)
  code_lt := by
    rw [Lib.Buffer.length_slice]
    exact e.codeSize.toNat_lt

/-- The clauses are so many that the section of their kind has room for them. -/
def EHSection.Fits : EHSection → Prop
  | .none => True
  | .small clauses => 12 * clauses.length < 2 ^ 8
  | .fat clauses => 24 * clauses.length < 2 ^ 24

theorem EHSection.Fits.clauses_length {section_ : EHSection} (h : section_.Fits) :
    24 * section_.clauses.length < 2 ^ 24 := by
  cases section_ with
  | none => exact Nat.two_pow_pos 24
  | small clauses =>
      rw [EHSection.Fits] at h
      rw [EHSection.clauses, List.length_map]
      omega
  | fat clauses => exact h

/-- No clause of a section that fits is lost. -/
theorem clauses_exportEH {clauses : List FatClause} (h : 24 * clauses.length < 2 ^ 24) :
    (exportEH clauses).clauses = clauses := by
  rw [exportEH]
  split_ifs with hnil
  · exact hnil.symm
  · have hsize : ehDataSize clauses.length / 24 = clauses.length := by
      rw [ehDataSize]
      omega
    rw [EHSection.clauses, hsize, List.take_length]

end SignalFxTracing.Il
