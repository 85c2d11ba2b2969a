import GrowlerDB.Core.Query
import GrowlerDB.Lib.Results

namespace GrowlerDB.Core
open Lib

inductive Syntax
  | lucene
  | kql
  deriving DecidableEq

inductive Tok
  | lparen
  | rparen
  | and
  | or
  | not
  | term (word : List Char)
  deriving DecidableEq

def Tok.display : Tok → String
  | .lparen => "`(`"
  | .rparen => "`)`"
  | .and => "`AND`"
  | .or => "`OR`"
  | .not => "`NOT`"
  | .term w => "`" ++ String.ofList w ++ "`"

structure Spanned where
  tok : Tok
  start : Nat

def toAsciiUppercase (word : List Char) : List Char := word.map Char.toUpper

def operator (dialect : Syntax) (word : List Char) : Option Tok :=
  match dialect with
  | .lucene =>
    if toAsciiUppercase word = "AND".toList ∨ word = "&&".toList then some .and
    else if toAsciiUppercase word = "OR".toList ∨ word = "||".toList then some .or
    else if toAsciiUppercase word = "NOT".toList then some .not
    else none
  | .kql =>
    if word = "and".toList then some .and
    else if word = "or".toList then some .or
    else if word = "not".toList then some .not
    else none

def flush (dialect : Syntax) (word : List Char) (start : Nat) : List Spanned :=
  match word with
  | [] => []
  | c :: rest =>
    match operator dialect word with
    | some op => [⟨op, start⟩]
    | none =>
      if dialect = .lucene ∧ c = '-' ∧ rest ≠ [] then [⟨.not, start⟩, ⟨.term rest, start + 1⟩]
      else [⟨.term word, start⟩]

inductive LexMode
  | plain
  | quote
  | range
  deriving DecidableEq

def lexFrom (dialect : Syntax) (i start : Nat) (word : List Char) :
    LexMode → List Char → List Spanned
  | _, [] => flush dialect word start
  | .quote, c :: cs =>
    lexFrom dialect (i + c.utf8Size) (if word = [] then i else start) (word ++ [c])
      (if c = '\x22' then .plain else .quote) cs
  | .range, c :: cs =>
    lexFrom dialect (i + c.utf8Size) (if word = [] then i else start) (word ++ [c])
      (if c = ']' ∨ c = '\x7d' then .plain else .range) cs
  | .plain, c :: cs =>
    let start := if word = [] then i else start
    if c = '\x22' then lexFrom dialect (i + c.utf8Size) start (word ++ [c]) .quote cs
    else if c = '[' ∨ c = '\x7b' then lexFrom dialect (i + c.utf8Size) start (word ++ [c]) .range cs
    else if c = '(' then
      flush dialect word start ++ ⟨.lparen, i⟩ :: lexFrom dialect (i + c.utf8Size) start [] .plain cs
    else if c = ')' then
      flush dialect word start ++ ⟨.rparen, i⟩ :: lexFrom dialect (i + c.utf8Size) start [] .plain cs
    else if Text.isWhitespace c then
      flush dialect word start ++ lexFrom dialect (i + c.utf8Size) start [] .plain cs
    else lexFrom dialect (i + c.utf8Size) start (word ++ [c]) .plain cs

def lex (dialect : Syntax) (input : String) : List Spanned :=
  lexFrom dialect 0 0 [] .plain input.toList

example : (lex .lucene "-a AND (b:\x22x y\x22)").map Spanned.tok =
    [.not, .term "a".toList, .and, .lparen, .term "b:\x22x y\x22".toList, .rparen] := by decide

/-- What the parser takes from the Rust standard library: alphanumeric characters beyond ASCII, `f32::from_str`, IP
texts. -/
structure TextStd where
  isAlphanumeric : Char → Bool
  parseF32 : List Char → Option (BitVec 32)
  isIpAddr : List Char → Bool
  alphanumeric_ascii : ∀ c, c.toNat < 128 → isAlphanumeric c = c.isAlphanum
  f32_no_quote : ∀ s x, parseF32 s = some x → '\x22' ∉ s

inductive ParseError
  | empty
  | unbalancedParen
  | missingOperand (found : String)
  | unexpectedToken (found : String)
  | tooDeep (max : Nat)
  | invalidValue (message : String) (pos : Nat)

def ParseError.display : ParseError → String
  | .empty => "empty query"
  | .unbalancedParen => "unbalanced parenthesis"
  | .missingOperand found => "expected a term but found " ++ found
  | .unexpectedToken found => "unexpected token: " ++ found
  | .tooDeep max => "query nested too deeply (max " ++ toString max ++ ")"
  | .invalidValue message pos => "invalid value at position " ++ toString pos ++ ": " ++ message

def f32FiniteNonNegative (b : BitVec 32) : Bool :=
  let magnitude := b.toNat % 2 ^ 31
  magnitude < 0x7F800000 && (b.toNat < 2 ^ 31 || magnitude == 0)

def parseUnsigned (limit : Nat) (cs : List Char) : Option Nat :=
  let digits := match cs with
    | '+' :: ds => ds
    | ds => ds
  (Text.parseDigits digits).filter (· < limit)

def splitOnce (sep : Char) (cs : List Char) : Option (List Char × List Char) :=
  match cs with
  | [] => none
  | c :: rest => if c = sep then some ([], rest) else (splitOnce sep rest).map (fun p => (c :: p.1, p.2))

def splitLast (sep : Char) (cs : List Char) : Option (List Char × List Char) :=
  match cs with
  | [] => none
  | c :: rest =>
    match splitLast sep rest with
    | some p => some (c :: p.1, p.2)
    | none => if c = sep then some ([], rest) else none

def splitOnceText (sep : List Char) (cs : List Char) : Option (List Char × List Char) :=
  if sep.isPrefixOf cs then some ([], cs.drop sep.length)
  else match cs with
    | [] => none
    | c :: rest => (splitOnceText sep rest).map (fun p => (c :: p.1, p.2))

def splitWhitespace (cs : List Char) : List (List Char) :=
  let (word, words) := cs.foldr (fun c (acc : List Char × List (List Char)) =>
    if Text.isWhitespace c then ([], if acc.1 = [] then acc.2 else acc.1 :: acc.2)
    else (c :: acc.1, acc.2)) ([], [])
  if word = [] then words else word :: words

variable (std : TextStd)

def isIdentifier (f : List Char) : Bool :=
  !f.isEmpty && f.all (fun c => std.isAlphanumeric c || c == '_' || c == '.')

def splitField (atom : List Char) : Option String × List Char :=
  match splitOnce ':' atom with
  | some (f, value) => if isIdentifier std f && !value.isEmpty then (some (String.ofList f), value) else (none, atom)
  | none => (none, atom)

def fieldPrefix (atom : List Char) : Option String :=
  match atom.getLast? with
  | some ':' => if isIdentifier std atom.dropLast then some (String.ofList atom.dropLast) else none
  | _ => none

mutual

def applyFieldPrefix (field : String) : Query → Query
  | .term f value => .term (some (f.getD field)) value
  | .matchText f text op => .matchText (some (f.getD field)) text op
  | .phrase f terms slop => .phrase (some (f.getD field)) terms slop
  | .startsWith f stem => .startsWith (some (f.getD field)) stem
  | .wildcard f pattern => .wildcard (some (f.getD field)) pattern
  | .fuzzy f value distance => .fuzzy (some (f.getD field)) value distance
  | .regex f pattern => .regex (some (f.getD field)) pattern
  | .bool must should mustNot filter =>
    .bool (applyFieldPrefixes field must) (applyFieldPrefixes field should)
      (applyFieldPrefixes field mustNot) (applyFieldPrefixes field filter)
  | .boost query factor => .boost (applyFieldPrefix field query) factor
  | q => q

def applyFieldPrefixes (field : String) : List Query → List Query
  | [] => []
  | q :: qs => applyFieldPrefix field q :: applyFieldPrefixes field qs

end

def stripBoost (value : List Char) : List Char × Option (BitVec 32) :=
  match splitLast '^' value with
  | some (core, factor) =>
    match std.parseF32 factor with
    | some b => (core, some b)
    | none => (value, none)
  | none => (value, none)

def isCidr (s : List Char) : Bool :=
  match splitOnce '/' s with
  | some (addr, bits) => std.isIpAddr addr && (parseUnsigned 256 bits).isSome
  | none => false

def phraseSlop (suffix : List Char) (pos : Nat) : Except ParseError Nat :=
  match suffix with
  | [] => .ok 0
  | '~' :: n =>
    match parseUnsigned (2 ^ 32) n with
    | some slop => .ok slop
    | none => .error (.invalidValue "bad phrase slop" pos)
  | _ => .error (.invalidValue "unexpected text after phrase" pos)

def phraseOf (field : Option String) (inner suffix : List Char) (pos : Nat) : Except ParseError Query :=
  match phraseSlop suffix pos with
  | .error e => .error e
  | .ok slop =>
    if slop > 100 then .error (.invalidValue "phrase slop too large (max 100)" pos)
    else .ok (.phrase field ((splitWhitespace inner).map String.ofList) slop)

def phraseNode (field : Option String) (rest : List Char) (pos : Nat) : Except ParseError Query :=
  match splitOnce '\x22' rest with
  | none => .error (.invalidValue "unterminated phrase" pos)
  | some (inner, suffix) => phraseOf field inner suffix pos

def rangeEnd (s : List Char) : Option String :=
  let s := Text.trimChars s
  if s = [] ∨ s = ['*'] then none else some (String.ofList s)

section

variable (field : Option String) (core : List Char) (pos : Nat)

def rangeNode : Except ParseError Query :=
  match field with
  | none => .error (.invalidValue "range needs a field" pos)
  | some field =>
    if core.getLast? ≠ some ']' ∧ core.getLast? ≠ some '\x7d' then
      .error (.invalidValue "unterminated range" pos)
    else match splitOnceText " TO ".toList (core.tail.dropLast) with
      | none => .error (.invalidValue "range needs ` TO `" pos)
      | some (lo, hi) =>
        .ok (.range field (rangeEnd lo) (core.head? = some '[') (rangeEnd hi) (core.getLast? = some ']'))

def plainNode : Query :=
  if '*' ∈ core ∨ '?' ∈ core then .wildcard field (String.ofList core) else .term field (String.ofList core)

def fuzzyOf (base suffix : List Char) : Except ParseError Query :=
  match (if suffix = [] then some 2 else parseUnsigned 256 suffix) with
  | none => .error (.invalidValue "bad fuzzy distance" pos)
  | some distance =>
    if distance > 2 then .error (.invalidValue "fuzzy distance must be 0, 1, or 2" pos)
    else .ok (.fuzzy field (String.ofList base) distance)

def wordNode : Except ParseError Query :=
  match splitLast '~' core with
  | some (c :: base, suffix) => fuzzyOf field pos (c :: base) suffix
  | _ => .ok (plainNode field core)

def valueNode : Except ParseError Query :=
  if field = none ∧ (core = "*".toList ∨ core = "*:*".toList) then .ok .matchAll
  else match core with
    | '\x22' :: rest => phraseNode field rest pos
    | '[' :: _ => rangeNode field core pos
    | '\x7b' :: _ => rangeNode field core pos
    | _ =>
      if 2 ≤ core.length ∧ core.head? = some '/' ∧ core.getLast? = some '/' then
        .ok (.regex field (String.ofList core.tail.dropLast))
      else match field with
        | some f => if isCidr std core then .ok (.ipCidr f (String.ofList core)) else wordNode field core pos
        | none => wordNode field core pos

end

def atomToQuery (atom : List Char) (pos : Nat) : Except ParseError Query :=
  let (field, value) := splitField std atom
  let (core, boost) := stripBoost std value
  match boost with
  | some b =>
    if f32FiniteNonNegative b then (valueNode std field core pos).map (.boost · b)
    else .error (.invalidValue "boost must be a finite, non-negative number" pos)
  | none => valueNode std field core pos

abbrev Parse := List Spanned → Except ParseError (Query × List Spanned)

def describePos (toks : List Spanned) : String :=
  match toks with
  | [] => "end of input"
  | t :: _ => t.tok.display

def takeNot : List Spanned → Bool × List Spanned
  | ⟨.not, _⟩ :: rest => (true, rest)
  | toks => (false, toks)

def nextClause : List Spanned → Option (List Spanned)
  | ⟨.and, _⟩ :: rest => some rest
  | ⟨.term t, i⟩ :: rest => some (⟨.term t, i⟩ :: rest)
  | ⟨.lparen, i⟩ :: rest => some (⟨.lparen, i⟩ :: rest)
  | ⟨.not, i⟩ :: rest => some (⟨.not, i⟩ :: rest)
  | _ => none

def conjunction (must mustNot : List Query) : Query :=
  match must, mustNot with
  | [q], [] => q
  | must, mustNot => .bool must [] mustNot []

def andLoop (clause : Parse) : Nat → List Query → List Query → Parse
  | 0, _, _, toks => .error (.missingOperand (describePos toks))
  | n + 1, must, mustNot, toks =>
    match clause (takeNot toks).2 with
    | .error e => .error e
    | .ok (q, rest) =>
      let must := if (takeNot toks).1 then must else must ++ [q]
      let mustNot := if (takeNot toks).1 then mustNot ++ [q] else mustNot
      match nextClause rest with
      | some next => andLoop clause n must mustNot next
      | none => .ok (conjunction must mustNot, rest)

def parseAnd (clause : Parse) : Parse := fun toks => andLoop clause (toks.length + 1) [] [] toks

def nextAlternative : List Spanned → Option (List Spanned)
  | ⟨.or, _⟩ :: rest => some rest
  | _ => none

def disjunction : List Query → Query
  | [q] => q
  | shoulds => .bool [] shoulds [] []

def orLoop (conj : Parse) : Nat → List Query → Parse
  | 0, _, toks => .error (.missingOperand (describePos toks))
  | n + 1, shoulds, toks =>
    match conj toks with
    | .error e => .error e
    | .ok (q, rest) =>
      match nextAlternative rest with
      | some next => orLoop conj n (shoulds ++ [q]) next
      | none => .ok (disjunction (shoulds ++ [q]), rest)

def parseOrWith (clause : Parse) : Parse :=
  fun toks => orLoop (parseAnd clause) (toks.length + 1) [] toks

def maxQueryDepth : Nat := 128

def parseGroup (clause : Parse) : Parse := fun toks =>
  match parseOrWith clause toks with
  | .error e => .error e
  | .ok (inner, ⟨.rparen, _⟩ :: rest) => .ok (inner, rest)
  | .ok _ => .error .unbalancedParen

def clauseWith (group : Parse) : Parse
  | ⟨.lparen, _⟩ :: rest => group rest
  | ⟨.term t, start⟩ :: rest =>
    match fieldPrefix std t, rest with
    | some field, ⟨.lparen, _⟩ :: inner => (group inner).map (fun p => (applyFieldPrefix field p.1, p.2))
    | _, _ => (atomToQuery std t start).map (·, rest)
  | toks => .error (.missingOperand (describePos toks))

def parseClause : Nat → Parse
  | 0 => clauseWith std (fun _ => .error (.tooDeep maxQueryDepth))
  | d + 1 => clauseWith std (parseGroup (parseClause d))

def parseTokens (toks : List Spanned) : Except ParseError Query :=
  if toks = [] then .error .empty
  else match parseOrWith (parseClause std maxQueryDepth) toks with
    | .error e => .error e
    | .ok (q, []) => .ok q
    | .ok (_, rest) => .error (.unexpectedToken (describePos rest))

def Query.parseWith (dialect : Syntax) (input : String) : Except ParseError Query :=
  parseTokens std (lex dialect input)

lemma andLoop_last (hq : clause (takeNot toks).2 = .ok (q, left)) (hn : nextClause left = none) :
    andLoop clause (n + 1) must mustNot toks = .ok (conjunction (if (takeNot toks).1 then must else must ++ [q])
        (if (takeNot toks).1 then mustNot ++ [q] else mustNot), left) := by
  rw [andLoop]
  simp only [hq, hn]

lemma andLoop_more (hq : clause (takeNot toks).2 = .ok (q, left)) (hn : nextClause left = some next) :
    andLoop clause (n + 1) must mustNot toks = andLoop clause n (if (takeNot toks).1 then must else must ++ [q])
        (if (takeNot toks).1 then mustNot ++ [q] else mustNot) next := by
  rw [andLoop]
  simp only [hq, hn]

lemma orLoop_last (hq : conj toks = .ok (q, left)) (hn : nextAlternative left = none) :
    orLoop conj (n + 1) shoulds toks = .ok (disjunction (shoulds ++ [q]), left) := by
  rw [orLoop]
  simp only [hq, hn]

lemma orLoop_more (hq : conj toks = .ok (q, left)) (hn : nextAlternative left = some next) :
    orLoop conj (n + 1) shoulds toks = orLoop conj n (shoulds ++ [q]) next := by
  rw [orLoop]
  simp only [hq, hn]

open List Query Tree

def TextStd.ascii : TextStd where
  isAlphanumeric := Char.isAlphanum
  parseF32 _ := none
  isIpAddr s := s = "10.0.0.0".toList
  alphanumeric_ascii _ _ := rfl
  f32_no_quote _ _ h := absurd h.symm (Option.some_ne_none _)

mutual

/-- Whether a query matches. Without a required clause, one of the `should` clauses has to; a query
of nothing but negations is matched against everything. -/
def Query.eval (leaf : Query → Bool) : Query → Bool
  | .matchAll => true
  | .boost query _ => query.eval leaf
  | .bool must should mustNot filter =>
    Query.evalAll leaf must && Query.evalAll leaf filter && !Query.evalAny leaf mustNot &&
      (!must.isEmpty || !filter.isEmpty || should.isEmpty || Query.evalAny leaf should)
  | q => leaf q

def Query.evalAll (leaf : Query → Bool) : List Query → Bool
  | [] => true
  | q :: qs => q.eval leaf && Query.evalAll leaf qs

def Query.evalAny (leaf : Query → Bool) : List Query → Bool
  | [] => false
  | q :: qs => q.eval leaf || Query.evalAny leaf qs

end

lemma Query.evalAll_eq (qs : List Query) : evalAll leaf qs = qs.all (eval leaf) := by
  induction qs with
  | nil => rfl
  | cons q qs ih => rw [evalAll, ih, all_cons]

lemma Query.evalAny_eq (qs : List Query) : evalAny leaf qs = qs.any (eval leaf) := by
  induction qs with
  | nil => rfl
  | cons q qs ih => rw [evalAny, ih, any_cons]

lemma eval_conjunction (must mustNot : List Query) : (conjunction must mustNot).eval leaf =
      (must.all (eval leaf) && !mustNot.any (eval leaf)) := by
  unfold conjunction
  split
  · simp
  · simp [eval, evalAll_eq, evalAny_eq, evalAll]

lemma eval_disjunction (h : alternatives ≠ []) :
    (disjunction alternatives).eval leaf = alternatives.any (eval leaf) := by
  unfold disjunction
  split
  · simp
  · simp [eval, evalAll, evalAny, evalAny_eq, h]

lemma applyFieldPrefixes_eq (field : String) (qs : List Query) :
    applyFieldPrefixes field qs = qs.map (applyFieldPrefix field) := by
  induction qs with
  | nil => rfl
  | cons q qs ih => rw [applyFieldPrefixes, ih, map_cons]

lemma applyFieldPrefix_conjunction (field : String) (must mustNot : List Query) :
    applyFieldPrefix field (conjunction must mustNot) =
      conjunction (must.map (applyFieldPrefix field)) (mustNot.map (applyFieldPrefix field)) := by
  unfold conjunction
  split
  · rfl
  · rename_i hnot
    simp only [applyFieldPrefix, applyFieldPrefixes_eq, map_nil]
    split
    · rename_i q hm hn
      obtain ⟨q', rfl, -⟩ := map_eq_singleton_iff.mp hm
      obtain rfl := map_eq_nil_iff.mp hn
      exact absurd rfl (hnot q' rfl)
    · rfl

lemma applyFieldPrefix_disjunction (field : String) (alternatives : List Query) :
    applyFieldPrefix field (disjunction alternatives) = disjunction (alternatives.map (applyFieldPrefix field)) := by
  unfold disjunction
  split
  · rfl
  · rename_i hnot
    simp only [applyFieldPrefix, applyFieldPrefixes_eq, map_nil]
    split
    · rename_i q hm
      obtain ⟨q', rfl, -⟩ := map_eq_singleton_iff.mp hm
      exact absurd rfl (hnot q')
    · rfl

open Lib Function

inductive Level
  | or
  | and
  | unary
  | clause
  deriving DecidableEq

/-- `or := and {OR and}`, `and := unary {[AND] unary}`, `unary := [NOT] clause`,
`clause := '(' or ')' | field:'(' or ')' | atom`. -/
inductive Tree : Level → Type
  | atom (word : List Char) : Tree .clause
  | group (e : Tree .or) : Tree .clause
  | fieldGroup (word : List Char) (e : Tree .or) : Tree .clause
  | plain (c : Tree .clause) : Tree .unary
  | not (c : Tree .clause) : Tree .unary
  | single (u : Tree .unary) : Tree .and
  | and (u : Tree .unary) (written : Bool) (e : Tree .and) : Tree .and
  | conj (a : Tree .and) : Tree .or
  | or (a : Tree .and) (e : Tree .or) : Tree .or

namespace Tree

variable {l : Level}

def toks : {l : Level} → Tree l → List Tok
  | _, .atom w => [.term w]
  | _, .group e => .lparen :: (e.toks ++ [.rparen])
  | _, .fieldGroup w e => .term w :: .lparen :: (e.toks ++ [.rparen])
  | _, .plain c => c.toks
  | _, .not c => .not :: c.toks
  | _, .single u => u.toks
  | _, .and u written e => u.toks ++ ((if written then [.and] else []) ++ e.toks)
  | _, .conj a => a.toks
  | _, .or a e => a.toks ++ .or :: e.toks

def depth : {l : Level} → Tree l → Nat
  | _, .atom _ => 0
  | _, .group e => e.depth + 1
  | _, .fieldGroup _ e => e.depth + 1
  | _, .plain c => c.depth
  | _, .not c => c.depth
  | _, .single u => u.depth
  | _, .and u _ e => max u.depth e.depth
  | _, .conj a => a.depth
  | _, .or a e => max a.depth e.depth

end Tree

/-- A leaf where a field is given: a leaf that names no field is about that one. -/
def Query.within (scope : Option String) : Query → Query
  | .term field value => .term (field <|> scope) value
  | .matchText field text op => .matchText (field <|> scope) text op
  | .phrase field words slop => .phrase (field <|> scope) words slop
  | .startsWith field stem => .startsWith (field <|> scope) stem
  | .wildcard field pattern => .wildcard (field <|> scope) pattern
  | .fuzzy field value distance => .fuzzy (field <|> scope) value distance
  | .regex field pattern => .regex (field <|> scope) pattern
  | q => q

variable (std : TextStd)

def atomQuery (word : List Char) : Option Query := (atomToQuery std word 0).toOption

def Tok.field : Tok → Option String
  | .term w => fieldPrefix std w
  | _ => none

def bindsGroup (before after : List Tok) : Bool :=
  (before.getLast?.bind (Tok.field std)).isSome && after.head? = some .lparen

namespace Tree

/-- The atoms have values, and a field that stands before a group is read as the group's. -/
def WellFormed : {l : Level} → Tree l → Prop
  | _, .atom w => (atomQuery std w).isSome
  | _, .group e => e.WellFormed
  | _, .fieldGroup w e => (fieldPrefix std w).isSome ∧ e.WellFormed
  | _, .plain c => c.WellFormed
  | _, .not c => c.WellFormed
  | _, .single u => u.WellFormed
  | _, .and u written e => u.WellFormed ∧ e.WellFormed ∧ (written = false → bindsGroup std u.toks e.toks = false)
  | _, .conj a => a.WellFormed
  | _, .or a e => a.WellFormed ∧ e.WellFormed

/-- The queries of a tree: of a conjunction those that are required and those that are excluded, and
of a disjunction the alternatives. -/
def parts : {l : Level} → Tree l → List Query × List Query
  | _, .atom w => ([(atomQuery std w).getD .matchAll], [])
  | _, .group e => ([disjunction e.parts.1], [])
  | _, .fieldGroup w e => ([applyFieldPrefix ((fieldPrefix std w).getD "") (disjunction e.parts.1)], [])
  | _, .plain c => c.parts
  | _, .not c => ([], c.parts.1)
  | _, .single u => u.parts
  | _, .and u _ e => (u.parts.1 ++ e.parts.1, u.parts.2 ++ e.parts.2)
  | _, .conj a => ([conjunction a.parts.1 a.parts.2], [])
  | _, .or a e => (conjunction a.parts.1 a.parts.2 :: e.parts.1, [])

def query (e : Tree .or) : Query := disjunction (e.parts std).1

/-- What a tree says of the leaves. `scope` is the field of the innermost field group around the tree. -/
def eval : {l : Level} → Tree l → (scope : Option String) → (leaf : Query → Bool) → Bool
  | _, .atom w, scope, leaf => ((atomQuery std w).getD .matchAll).eval (fun q => leaf (q.within scope))
  | _, .group e, scope, leaf => e.eval scope leaf
  -- the word of a field group is the field and a colon
  | _, .fieldGroup w e, _, leaf => e.eval (some (String.ofList w.dropLast)) leaf
  | _, .plain c, scope, leaf => c.eval scope leaf
  | _, .not c, scope, leaf => !c.eval scope leaf
  | _, .single u, scope, leaf => u.eval scope leaf
  | _, .and u _ e, scope, leaf => u.eval scope leaf && e.eval scope leaf
  | _, .conj a, scope, leaf => a.eval scope leaf
  | _, .or a e, scope, leaf => a.eval scope leaf || e.eval scope leaf

end Tree

variable {std}

lemma Tree.alternatives_ne_nil : (e : Tree .or) → (e.parts std).1 ≠ []
  | .conj _ => cons_ne_nil _ _
  | .or _ _ => cons_ne_nil _ _

lemma Tree.parts_clause : (c : Tree .clause) → ∃ q, c.parts std = ([q], [])
  | .atom _ => ⟨_, rfl⟩
  | .group _ => ⟨_, rfl⟩
  | .fieldGroup _ _ => ⟨_, rfl⟩

lemma fieldPrefix_eq (h : (fieldPrefix std w).isSome) : fieldPrefix std w = some (String.ofList w.dropLast) := by
  unfold fieldPrefix at h ⊢
  split at h <;> simp_all

lemma Query.within_none (q : Query) : q.within none = q := by cases q <;> simp [within]

/-- The innermost field counts. -/
lemma Query.within_some (q : Query) : (q.within (some field)).within scope = q.within (some field) := by
  cases q <;> simp [within]

mutual

/-- To put a field before a query is to read its leaves there. -/
lemma eval_applyFieldPrefix (field : String) (leaf : Query → Bool) : (q : Query) →
    (applyFieldPrefix field q).eval leaf = q.eval (fun q => leaf (q.within (some field)))
  | .bool must should mustNot filter => by
    have hempty : ∀ qs, (applyFieldPrefixes field qs).isEmpty = qs.isEmpty := fun qs => by
      rw [applyFieldPrefixes_eq, isEmpty_map]
    simp only [applyFieldPrefix, Query.eval, evalAll_applyFieldPrefixes field leaf, evalAny_applyFieldPrefixes field leaf,
      hempty]
  | .boost q b => by rw [applyFieldPrefix, Query.eval, Query.eval, eval_applyFieldPrefix field leaf q]
  | .term f _ | .matchText f .. | .phrase f .. | .startsWith f _ | .wildcard f _ | .fuzzy f .. | .regex f _ => by
    cases f <;> rfl
  | .matchAll | .terms .. | .fieldExists .. | .range .. | .ipCidr .. | .knn .. => rfl

lemma evalAll_applyFieldPrefixes (field : String) (leaf : Query → Bool) : (qs : List Query) →
    evalAll leaf (applyFieldPrefixes field qs) = evalAll (fun q => leaf (q.within (some field))) qs
  | [] => rfl
  | q :: qs => by
    rw [applyFieldPrefixes, evalAll, evalAll, eval_applyFieldPrefix field leaf q, evalAll_applyFieldPrefixes field leaf qs]

lemma evalAny_applyFieldPrefixes (field : String) (leaf : Query → Bool) : (qs : List Query) →
    evalAny leaf (applyFieldPrefixes field qs) = evalAny (fun q => leaf (q.within (some field))) qs
  | [] => rfl
  | q :: qs => by
    rw [applyFieldPrefixes, evalAny, evalAny, eval_applyFieldPrefix field leaf q, evalAny_applyFieldPrefixes field leaf qs]

end

/-- The queries of a tree, each read where the tree stands, together mean what the tree means. -/
def Tree.Agrees (std : TextStd) (leaf : Query → Bool) (scope : Option String) : {l : Level} → Tree l → Prop
  | .or, e => (e.parts std).1.any (Query.eval fun q => leaf (q.within scope)) = e.eval std scope leaf
  | .and, e | .unary, e | .clause, e =>
    ((e.parts std).1.all (Query.eval fun q => leaf (q.within scope)) &&
      !(e.parts std).2.any (Query.eval fun q => leaf (q.within scope))) = e.eval std scope leaf

lemma Tree.agrees (leaf : Query → Bool) : {l : Level} → (e : Tree l) → (scope : Option String) →
    e.WellFormed std → e.Agrees std leaf scope
  | _, .atom w, scope, _ => by simp [Agrees, parts, Tree.eval]
  | _, .group e, scope, h => by
    have he := e.agrees leaf scope h
    simp only [Agrees, parts, Tree.eval] at he ⊢
    rw [← he]
    simp [eval_disjunction, e.alternatives_ne_nil]
  | _, .fieldGroup w e, scope, h => by
    have he := e.agrees leaf (some (String.ofList w.dropLast)) h.2
    simp only [Agrees, parts, Tree.eval] at he ⊢
    rw [← he]
    simp [fieldPrefix_eq h.1, eval_applyFieldPrefix, within_some, eval_disjunction, e.alternatives_ne_nil]
  | _, .plain c, scope, h => c.agrees leaf scope h
  | _, .not c, scope, h => by
    have hc := c.agrees leaf scope h
    obtain ⟨q, hq⟩ := @Tree.parts_clause std c
    simp only [Agrees, parts, Tree.eval, hq] at hc ⊢
    rw [← hc]
    simp
  | _, .single u, scope, h => u.agrees leaf scope h
  | _, .and u written e, scope, h => by
    have hu := u.agrees leaf scope h.1
    have he := e.agrees leaf scope h.2.1
    simp only [Agrees, parts, Tree.eval] at hu he ⊢
    rw [← hu, ← he, all_append, any_append, Bool.not_or]
    ac_rfl
  | _, .conj a, scope, h => by
    have ha := a.agrees leaf scope h
    simp only [Agrees, parts, Tree.eval] at ha ⊢
    rw [← ha]
    simp [eval_conjunction]
  | _, .or a e, scope, h => by
    have ha := a.agrees leaf scope h.1
    have he := e.agrees leaf scope h.2
    simp only [Agrees, parts, Tree.eval] at ha he ⊢
    rw [← ha, ← he]
    simp [eval_conjunction]

lemma Tree.eval_query (leaf : Query → Bool) {e : Tree .or} (h : e.WellFormed std) :
    (e.query std).eval leaf = e.eval std none leaf := by
  have he := e.agrees leaf none h
  simp only [Agrees, within_none] at he
  rw [query, eval_disjunction e.alternatives_ne_nil]
  exact he

end GrowlerDB.Core
