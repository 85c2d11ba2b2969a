import Mathlib.Data.List.Basic

namespace GrowlerDB.Lib
open List

/-- A machine that reads its input piece by piece and writes a part of the output at each. -/
structure Transducer (σ ι ο : Type) where
  step : σ → ι → List ο × σ
  finish : σ → List ο

namespace Transducer

variable {σ ι ο : Type} (m : Transducer σ ι ο)

def run (s : σ) : List ι → List ο × σ
  | [] => ([], s)
  | x :: xs => ((m.step s x).1 ++ (run (m.step s x).2 xs).1, (run (m.step s x).2 xs).2)

def output (s : σ) (xs : List ι) : List ο := (m.run s xs).1 ++ m.finish (m.run s xs).2

@[simp] lemma run_nil (s : σ) : m.run s [] = ([], s) := rfl

lemma run_append (s : σ) (xs ys : List ι) :
    m.run s (xs ++ ys) = ((m.run s xs).1 ++ (m.run (m.run s xs).2 ys).1, (m.run (m.run s xs).2 ys).2) := by
  induction xs generalizing s with
  | nil => rfl
  | cons x xs ih => simp only [cons_append, run, ih, append_assoc]

lemma output_cons (s : σ) (x : ι) (xs : List ι) :
    m.output s (x :: xs) = (m.step s x).1 ++ m.output (m.step s x).2 xs := by
  simp only [output, run, append_assoc]

lemma output_append (s : σ) (xs ys : List ι) :
    m.output s (xs ++ ys) = (m.run s xs).1 ++ m.output (m.run s xs).2 ys := by
  simp only [output, run_append, append_assoc]

end Transducer

end GrowlerDB.Lib
