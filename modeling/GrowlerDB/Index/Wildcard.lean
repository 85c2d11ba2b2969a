import GrowlerDB.Index.Build

namespace GrowlerDB.Index.Wildcard

/-- A first part of the term is made of admitted characters, and the rest is accepted. -/
def run (ok : Char → Bool) (rest : List Char → Bool) : List Char → Bool
  | [] => rest []
  | c :: t => rest (c :: t) || (ok c && run ok rest t)

def one (ok : Char → Bool) (rest : List Char → Bool) : List Char → Bool
  | [] => false
  | c :: t => ok c && rest t

/-- The term matches the pattern, where `*` stands for any number of admitted characters and `?` for one. -/
def globMatches (ok : Char → Bool) : List Char → List Char → Bool
  | [] => List.isEmpty
  | c :: p =>
    if c = '*' then run ok (globMatches ok p) else one (if c = '?' then ok else (· = c)) (globMatches ok p)

def anyChar (_ : Char) : Bool := true

def noNewline (c : Char) : Bool := c ≠ '\n'

/-- A regular expression without groups, classes and alternatives matches the whole of the term. The dot admits all
characters but a newline. -/
def regexMatches : List Char → List Char → Bool
  | [] => List.isEmpty
  | '.' :: '*' :: r => run noNewline (regexMatches r)
  | '.' :: r => one noNewline (regexMatches r)
  | '\\' :: c :: '*' :: r => run (· = c) (regexMatches r)
  | '\\' :: c :: r => one (· = c) (regexMatches r)
  | c :: '*' :: r => if c ∈ regexMeta then fun _ => false else run (· = c) (regexMatches r)
  | c :: r => if c ∈ regexMeta then fun _ => false else one (· = c) (regexMatches r)

lemma regexMatches_globToRegex (p : List Char) : regexMatches (globToRegex p) = globMatches noNewline p := by
  induction p with
  | nil => rfl
  | cons c p ih =>
    have hplain : ∀ r, globToRegex p ≠ '*' :: r := by
      cases p with
      | nil => nofun
      | cons d p =>
        intro r
        rw [globToRegex, List.flatMap_cons]
        split_ifs <;> simp [*]
    rw [globMatches, ← ih]
    change regexMatches (_ ++ globToRegex p) = _
    beta_reduce
    -- Each kind of character is one equation of the matcher, since no star follows it.
    split_ifs with hstar hq hmeta
    · rfl
    · exact regexMatches.eq_3 _ hplain
    · exact regexMatches.eq_5 _ _ hplain
    · have hdot : c ≠ '.' := fun h => hmeta (h ▸ by decide)
      have hback : c ≠ '\\' := fun h => hmeta (h ▸ by decide)
      have heq := regexMatches.eq_7 c (globToRegex p) (fun _ h => absurd h hdot) hdot (fun _ _ h => absurd h hback)
        (fun _ _ h => absurd h hback) hplain
      exact heq.trans (if_neg hmeta)

lemma globMatches_any (h : globMatches noNewline p t) : globMatches anyChar p t := by
  induction p generalizing t with
  | nil => exact h
  | cons c p ih =>
    rw [globMatches] at h ⊢
    split_ifs at h ⊢
    · induction t with
      | nil => exact ih h
      | cons d t iht =>
        rw [run, Bool.or_eq_true, Bool.and_eq_true] at h ⊢
        exact h.imp ih fun h => ⟨rfl, iht h.2⟩
    all_goals
      cases t with
      | nil => exact h
      | cons d t =>
        rw [one, Bool.and_eq_true] at h ⊢
        exact ⟨by first | rfl | exact h.1, ih h.2⟩

/-- The expression matches the terms the pattern matches, exactly where no wildcard has to stand for a newline. -/
theorem globToRegex_exact_iff (p t : List Char) : regexMatches (globToRegex p) t = globMatches anyChar p t ↔
    (globMatches anyChar p t = true → globMatches noNewline p t = true) := by
  rw [regexMatches_globToRegex, Bool.eq_iff_iff]
  exact ⟨fun h => h.mpr, fun h => ⟨globMatches_any, h⟩⟩

theorem globToRegex_newline : globMatches anyChar "a*b".toList "a\nb".toList = true ∧
    regexMatches (globToRegex "a*b".toList) "a\nb".toList = false := by
  decide

end GrowlerDB.Index.Wildcard
