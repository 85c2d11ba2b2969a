import GrowlerDB.Core.Key
import GrowlerDB.Index.Build
import GrowlerDB.Index.KeysetPredicate

namespace GrowlerDB.Engine
open Core Index Lib List

variable {K T : Type} [LinearOrder K] [LinearOrder T] (enc : CompositeKey → K) (schema : IndexSchema) (s : Searcher K T)

def sortValueToValue : TvFieldType → SortValue → Option Value
  | .i64 _, .num x => some (.int x.toI64)
  | .f64 _, .num x => some (.float x)
  | .date _, .num x => some (.ts x.toI64)
  | .str _ _, .str s => some (.str s)
  | _, _ => none

def pruneValue (d : StoredDoc K T) (field : String) : Option Value :=
  match schema.resolveTypedField field, s.fastValue d field with
  | .ok ty, .ok sv => sortValueToValue ty sv
  | _, _ => none

/-- A file is planned unless its bounds leave the hint out. -/
def fileKept : Value → Value → Value → Bool
  | .int lower, .int upper, .int hint | .ts lower, .ts upper, .ts hint => decide (lower ≤ hint) && decide (hint ≤ upper)
  | _, _, _ => true

/-- A DATE column keeps whole seconds, towards zero. -/
def wholeSeconds (micros : Int) : Int := micros.tdiv 1000000 * 1000000

/-- The fast column of the field has this value of the document: a LONG as it is, a DATE, within the nanoseconds of a
64-bit integer, in whole seconds. -/
inductive Keeps (d : StoredDoc K T) (field : String) : Value → Prop
  | long (n : I64) (cell : d.cell field = some (.i64 n)) (column : s.sortColumn field = .ok .i64)
      (ty : schema.resolveTypedField field = .ok (.i64 true)) : Keeps d field (.int n)
  | date (micros : Int) (range : micros.natAbs ≤ 9223372036854775) (t : T)
      (instant : s.cols.intoTimestampMicros t = wholeSeconds micros) (cell : d.cell field = some (.date t))
      (column : s.sortColumn field = .ok .date) (ty : schema.resolveTypedField field = .ok (.date true)) :
      Keeps d field (.ts micros)

/-- The LONG values that come back from a float as they were have 53 significant bits, or are the last of the range;
the DATE values that a column keeps are whole seconds. -/
def Survives : Value → Prop
  | .int n => (∃ g e, g < 2 ^ 53 ∧ n.natAbs = g * 2 ^ e) ∨ n = 2 ^ 63 - 1
  | .ts micros => 1000000 ∣ micros
  | _ => True

variable {enc schema s} {d : StoredDoc K T} {field : String}

lemma toI64_wholeSeconds (h : micros.natAbs ≤ 9223372036854775) :
    (F64.ofInt (wholeSeconds micros)).toI64 = wholeSeconds micros := by
  have habs : (wholeSeconds micros).natAbs = micros.natAbs / 1000000 * 15625 * 2 ^ 6 := by
    rw [wholeSeconds, Int.natAbs_mul, Int.natAbs_tdiv]
    change micros.natAbs / 1000000 * 1000000 = _
    omega
  exact (F64.toI64_ofInt_eq_iff (by unfold InI64; omega)).mpr (.inl ⟨_, 6, by omega, habs⟩)

omit [LinearOrder K] in
lemma Keeps.hint {v : Value} (h : Keeps schema s d field v) : ∃ hint, pruneValue schema s d field = some hint ∧
    (hint = v ↔ Survives v) ∧ fileKept v v v ∧ (fileKept v v hint → hint = v) := by
  cases h with
  | long n cell column ty =>
    refine ⟨.int (F64.ofInt n).toI64, ?_, ?_, ?_⟩
    · simp [pruneValue, ty, Searcher.fastValue, column, Searcher.columnValue, cell, sortValueToValue, bind, Except.bind]
    · rw [Value.int.injEq]
      exact F64.toI64_ofInt_eq_iff n.2
    · simp only [fileKept, Bool.and_eq_true, decide_eq_true_eq, Value.int.injEq]
      omega
  | date micros range t instant cell column ty =>
    refine ⟨.ts (wholeSeconds micros), ?_, ?_, ?_⟩
    · simp [pruneValue, ty, Searcher.fastValue, column, Searcher.columnValue, cell, sortValueToValue, bind, Except.bind,
        instant, toI64_wholeSeconds range]
    · rw [Value.ts.injEq]
      exact ⟨fun h => ⟨_, by rw [← h, wholeSeconds, mul_comm]⟩, fun h => Int.tdiv_mul_cancel h⟩
    · simp only [fileKept, Bool.and_eq_true, decide_eq_true_eq, Value.ts.injEq]
      omega

namespace SampleHints
open SampleSegment

def key (id : Nat) : CompositeKey := ⟨[], [("id", .int id)]⟩

def ranks : Searcher Nat I64 := pair 1 2 ⟨2 ^ 53, by decide⟩ ⟨2 ^ 53 + 1, by decide⟩ (by decide)

end SampleHints

open SampleHints SampleSegment

end GrowlerDB.Engine
