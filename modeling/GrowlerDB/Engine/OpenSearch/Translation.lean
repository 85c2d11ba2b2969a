import GrowlerDB.Core.Window
import GrowlerDB.Core.FieldGroups

namespace GrowlerDB.Engine
open Lib Core Except Subtype

inductive JsonNumber
  | int (value : Int)
  | float (text : String)

def JsonNumber.display : JsonNumber → String
  | .int value => String.ofList (Text.renderI64 value)
  | .float text => text

def JsonNumber.asI64 : JsonNumber → Option Int
  | .int value => if InI64 value then some value else none
  | .float _ => none

inductive Json
  | null
  | bool (b : Bool)
  | number (n : JsonNumber)
  | string (s : String)
  | array (items : List Json)
  | object (fields : List (String × Json))

def Json.get (key : String) : Json → Option Json
  | .object fields => fields.lookup key
  | _ => none

def Json.isObject : Json → Bool
  | .object _ => true
  | _ => false

inductive AdapterErrorKind
  | unsupported
  | badRequest

structure AdapterError where
  kind : AdapterErrorKind
  reason : String

def AdapterError.unsupported (reason : String) : AdapterError := ⟨.unsupported, reason⟩

def AdapterError.bad (reason : String) : AdapterError := ⟨.badRequest, reason⟩

def special : List Char :=
  ['(', ')', '\x7b', '\x7d', '[', ']', '^', '\x22', '~', '*', '?', ':', '\\', '&', '|', '!', ' ', '\t', '\n']

def token (field value : String) : Except AdapterError String :=
  if value = "" then .error (.bad ("empty value for `" ++ field ++ "`"))
  else if value.toList.any (special.contains ·) then
    .error (.unsupported ("value `" ++ value ++ "` for `" ++ field ++
      "` contains whitespace or query metacharacters; the adapter supports simple token values " ++
      "(ids, numbers, dates, enums) — use the native /v1/search for arbitrary text"))
  else .ok value

def scalarToken (field : String) : Json → Except AdapterError String
  | .string s => token field s
  | .number n => token field n.display
  | .bool b => token field (if b then "true" else "false")
  | _ => .error (.bad ("`" ++ field ++ "` value must be a string/number/bool"))

abbrev FieldFormats := String → Option TimeFormat

variable (cal : Calendar) (formats : FieldFormats)

def boundToken (field : String) (v : Json) : Except AdapterError String :=
  match formats field, v with
  | some fmt, .number n =>
    match n.asI64 with
    | some i =>
      match fmt.toMicros cal field (.int i) with
      | .ok micros => .ok (String.ofList (Text.renderI64 micros))
      | .error e => .error (.bad ("`range` on `" ++ field ++ "`: " ++ e.display (fun _ => n.display)))
    | none => scalarToken field v
  | _, _ => scalarToken field v

def oneField (obj : Json) (clause : String) : Except AdapterError (String × Json) :=
  match obj with
  | .object [(k, v)] => .ok (k, v)
  | .object _ => .error (.bad ("`" ++ clause ++ "` must name exactly one field"))
  | _ => .error (.bad ("`" ++ clause ++ "` must be an object"))

def leafValue (spec : Json) (key : String) : Json := (spec.get key).getD spec

def leafText (clause : String) (spec : Json) : Except AdapterError String :=
  match leafValue spec "query" with
  | .string text => .ok text
  | _ => .error (.bad ("`" ++ clause ++ "` query must be a string"))

section

variable (body : Json)

def translateTerm : Except AdapterError String := do
  let (field, spec) ← oneField body "term"
  let tok ← boundToken cal formats field (leafValue spec "value")
  return field ++ ":" ++ tok

def translateTerms : Except AdapterError String := do
  let (field, spec) ← oneField body "terms"
  match spec with
  | .array [] => .error (.bad "`terms` array must be non-empty")
  | .array arr => do
    let toks ← arr.mapM (boundToken cal formats field)
    return field ++ ":(" ++ " OR ".intercalate toks ++ ")"
  | _ => .error (.bad "`terms` value must be an array")

def translateMatch : Except AdapterError String := do
  let (field, spec) ← oneField body "match"
  let text ← leafText "match" spec
  let toks ← (splitWhitespace text.toList).mapM (fun t => token field (String.ofList t))
  match toks with
  | [] => .error (.bad "`match` query is empty")
  | [tok] => return field ++ ":" ++ tok
  | toks => return field ++ ":(" ++ " OR ".intercalate toks ++ ")"

def translateMatchPhrase : Except AdapterError String := do
  let (field, spec) ← oneField body "match_phrase"
  let text ← leafText "match_phrase" spec
  if '\x22' ∈ text.toList ∨ '\\' ∈ text.toList then
    .error (.unsupported "`match_phrase` text may not contain quotes or backslashes")
  else return field ++ ":\x22" ++ text ++ "\x22"

def fieldPart (q : String) : Json → Except AdapterError String
  | .string f => (token f q).map (f ++ ":" ++ ·)
  | _ => .error (.bad "`multi_match` fields must be strings")

def translateMultiMatch : Except AdapterError String := do
  match body.get "query" with
  | some (.string q) =>
    match body.get "fields" with
    | some (.array []) => .error (.bad "`multi_match` `fields` must be non-empty")
    | some (.array fields) => do
      let parts ← fields.mapM (fieldPart q)
      return "(" ++ " OR ".intercalate parts ++ ")"
    | _ => .error (.bad "`multi_match` needs a `fields` array")
  | _ => .error (.bad "`multi_match` needs a string `query`")

def rangeSide (field : String) (spec : Json) (inclusive exclusive : String) :
    Except AdapterError (Option String × Bool) :=
  match spec.get inclusive, spec.get exclusive with
  | some v, _ => (boundToken cal formats field v).map (some ·, true)
  | none, some v => (boundToken cal formats field v).map (some ·, false)
  | none, none => .ok (none, true)

def translateRange : Except AdapterError String := do
  let (field, spec) ← oneField body "range"
  let (lower, lowerInc) ← rangeSide cal formats field spec "gte" "gt"
  let (upper, upperInc) ← rangeSide cal formats field spec "lte" "lt"
  if lower.isNone ∧ upper.isNone then
    .error (.bad ("`range` on `" ++ field ++ "` needs at least one of gte/gt/lte/lt"))
  else
    let opening := if lowerInc then "[" else "\x7b"
    let closing := if upperInc then "]" else "\x7d"
    return field ++ ":" ++ opening ++ lower.getD "" ++ " TO " ++ upper.getD "" ++ closing

end

def group (frag : String) : String :=
  if frag.toList.head? = some '(' ∨ ' ' ∉ frag.toList then frag else "(" ++ frag ++ ")"

def requiredTexts (must filter should mustNot : List String) : List String :=
  let required := (must ++ filter).map group
  let required := if required = [] ∧ should ≠ [] then [group (" OR ".intercalate (should.map group))] else required
  required ++ mustNot.map (fun mn => "NOT " ++ group mn)

def boolText (must filter should mustNot : List String) : String :=
  let required := requiredTexts must filter should mustNot
  if required = [] then "*:*" else " AND ".intercalate required

mutual

def translateQuery : Json → Except AdapterError String
  | .object [(clause, body)] =>
    match clause with
    | "match_all" => .ok "*:*"
    | "term" => translateTerm cal formats body
    | "terms" => translateTerms cal formats body
    | "match" => translateMatch body
    | "match_phrase" => translateMatchPhrase body
    | "multi_match" => translateMultiMatch body
    | "range" => translateRange cal formats body
    | "bool" => translateBool body
    | other => .error (.unsupported ("query type `" ++ other ++ "` is not supported by the adapter (supported: " ++
        "match, match_phrase, multi_match, term, terms, range, bool, match_all)"))
  | .object _ => .error (.bad "a query clause must have exactly one type")
  | _ => .error (.bad "query must be an object")

def translateBool : Json → Except AdapterError String
  | .object fields => do
    let must ← translateClauses "must" fields
    let filter ← translateClauses "filter" fields
    let should ← translateClauses "should" fields
    let mustNot ← translateClauses "must_not" fields
    return boolText must filter should mustNot
  | _ => .ok (boolText [] [] [] [])

def translateClauses (key : String) : List (String × Json) → Except AdapterError (List String)
  | [] => .ok []
  | (k, .array items) :: fields => if key = k then translateItems items else translateClauses key fields
  | (k, v) :: fields =>
    if key = k then
      if v.isObject then (translateQuery v).map ([·])
      else .error (.bad "bool clause must be an object or array")
    else translateClauses key fields

def translateItems : List Json → Except AdapterError (List String)
  | [] => .ok []
  | c :: items => do
    let text ← translateQuery c
    let texts ← translateItems items
    return text :: texts

end

example : translateQuery .blank (fun _ => none) (.object [("bool", .object [("must", .array
    [.object [("term", .object [("a", .string "x")])], .object [("match", .object [("b", .string "y z")])]])])]) =
      .ok "a:x AND (b:(y OR z))" := by rfl

open List

def IsToken (s : String) : Prop := s ≠ "" ∧ ∀ c ∈ s.toList, c ∉ special

abbrev Token := {s : String // IsToken s}

abbrev Quotable := {s : String // '\x22' ∉ s.toList}

abbrev Several (α : Type) := {l : List α // l ≠ []}

abbrev Bound := Option Token × Bool

/-- A query of the supported subset. The leaves hold the words that are searched for. -/
inductive Clause
  | matchAll
  | term (field : String) (value : Token)
  | terms (field : String) (values : Several Token)
  | words (field : String) (words : Several Token)
  | phrase (field : String) (text : Quotable)
  | multiMatch (fields : Several String) (word : Token)
  | range (field : String) (lower upper : Bound)
  | bool (must filter should mustNot : List Clause)

namespace Clause

lemma induction {P : Clause → Prop} (matchAll : P .matchAll) (term : ∀ field value, P (.term field value))
    (terms : ∀ field values, P (.terms field values)) (words : ∀ field ws, P (.words field ws))
    (phrase : ∀ field text, P (.phrase field text)) (multiMatch : ∀ fields word, P (.multiMatch fields word))
    (range : ∀ field lower upper, P (.range field lower upper))
    (bool : ∀ must filter should mustNot, (∀ c ∈ must, P c) → (∀ c ∈ filter, P c) → (∀ c ∈ should, P c) →
      (∀ c ∈ mustNot, P c) → P (.bool must filter should mustNot)) (c : Clause) : P c := by
  refine @Clause.rec P (fun cs => ∀ c ∈ cs, P c) matchAll term terms words phrase multiMatch range bool ?_ ?_ c
  · intro c hc
    exact absurd hc not_mem_nil
  · intro c cs hc hcs d hd
    rcases mem_cons.mp hd with rfl | hd
    · exact hc
    · exact hcs d hd

end Clause

def valueLeaf (field : String) (value : Token) : Query := .term (some field) value.val

mutual

/-- Whether a query matches, given what the leaves match. Alternatives count only without a required clause. -/
def Clause.holds (leaf : Query → Bool) : Clause → Bool
  | .matchAll => true
  | .term field value => leaf (valueLeaf field value)
  | .terms field values | .words field values => values.val.any (fun value => leaf (valueLeaf field value))
  | .phrase field text => leaf (.phrase (some field) ((splitWhitespace text.val.toList).map String.ofList) 0)
  | .multiMatch fields word => fields.val.any (fun field => leaf (valueLeaf field word))
  | .range field lower upper => leaf (.range field (lower.1.map Subtype.val) lower.2 (upper.1.map Subtype.val) upper.2)
  | .bool must filter should mustNot =>
    Clause.allHold leaf must && Clause.allHold leaf filter && !Clause.anyHolds leaf mustNot &&
      (!must.isEmpty || !filter.isEmpty || should.isEmpty || Clause.anyHolds leaf should)

def Clause.allHold (leaf : Query → Bool) : List Clause → Bool
  | [] => true
  | c :: cs => c.holds leaf && Clause.allHold leaf cs

def Clause.anyHolds (leaf : Query → Bool) : List Clause → Bool
  | [] => false
  | c :: cs => c.holds leaf || Clause.anyHolds leaf cs

end

lemma Clause.allHold_eq (leaf : Query → Bool) (cs : List Clause) :
    Clause.allHold leaf cs = cs.all (Clause.holds leaf) := by
  induction cs with
  | nil => rfl
  | cons c cs ih => rw [Clause.allHold, ih, all_cons]

lemma Clause.anyHolds_eq (leaf : Query → Bool) (cs : List Clause) :
    Clause.anyHolds leaf cs = cs.any (Clause.holds leaf) := by
  induction cs with
  | nil => rfl
  | cons c cs ih => rw [Clause.anyHolds, ih, any_cons]

def groupText (field : String) (values : List Token) : String :=
  field ++ ":(" ++ " OR ".intercalate (values.map Subtype.val) ++ ")"

def wordsText (field : String) : List Token → String
  | [word] => field ++ ":" ++ word.val
  | ws => groupText field ws

def boundsText (lower upper : Bound) : String :=
  (if lower.2 then "[" else "\x7b") ++ (lower.1.map Subtype.val).getD "" ++ " TO " ++
    (upper.1.map Subtype.val).getD "" ++ (if upper.2 then "]" else "\x7d")

mutual

def Clause.print : Clause → String
  | .matchAll => "*:*"
  | .term field value => field ++ ":" ++ value.val
  | .terms field values => groupText field values.val
  | .words field ws => wordsText field ws.val
  | .phrase field text => field ++ ":\x22" ++ text.val ++ "\x22"
  | .multiMatch fields word => "(" ++ " OR ".intercalate (fields.val.map (fun f => f ++ ":" ++ word.val)) ++ ")"
  | .range field lower upper => field ++ ":" ++ boundsText lower upper
  | .bool must filter should mustNot =>
    boolText (Clause.printAll must) (Clause.printAll filter) (Clause.printAll should) (Clause.printAll mustNot)

def Clause.printAll : List Clause → List String
  | [] => []
  | c :: cs => c.print :: Clause.printAll cs

end

lemma Clause.printAll_eq (cs : List Clause) : Clause.printAll cs = cs.map Clause.print := by
  induction cs with
  | nil => rfl
  | cons c cs ih => rw [Clause.printAll, ih, map_cons]

variable {field s : String}

section

variable (cal : Calendar) (formats : FieldFormats)

def tokened (x : Except AdapterError String) (h : ∀ s, x = .ok s → IsToken s) : Except AdapterError Token :=
  match x, h with
  | .ok s, h => .ok ⟨s, h s rfl⟩
  | .error e, _ => .error e

lemma tokened_text (x : Except AdapterError String) (h : ∀ s, x = .ok s → IsToken s) :
    (tokened x h).map val = x := by
  cases x <;> rfl

lemma isToken_token (h : token field value = .ok s) : IsToken s := by
  unfold token at h
  split_ifs at h with hempty hspecial
  cases h
  refine ⟨hempty, fun c hc hin => hspecial ?_⟩
  exact any_eq_true.mpr ⟨c, hc, by simpa using hin⟩

lemma isToken_scalarToken (h : scalarToken field v = .ok s) : IsToken s := by
  unfold scalarToken at h
  split at h
  · exact isToken_token h
  · exact isToken_token h
  · exact isToken_token h
  · cases h

lemma isToken_render (x : Int) : IsToken (String.ofList (Text.renderI64 x)) := by
  obtain ⟨hne, hchars⟩ := isBound_render x
  refine ⟨by simpa using hne, fun c hc hin => ?_⟩
  rw [String.toList_ofList] at hc
  rcases hchars c hc with halnum | rfl
  · have hspecial := all_eq_true.mp (show special.all (fun d => !d.isAlphanum) = true by decide) c hin
    simp [halnum] at hspecial
  · exact absurd hin (by decide)

lemma isToken_boundToken (h : boundToken cal formats field v = .ok s) : IsToken s := by
  unfold boundToken at h
  split at h
  · split at h
    · split at h
      · cases h
        exact isToken_render _
      · cases h
    · exact isToken_scalarToken h
  · exact isToken_scalarToken h

def readValue (field : String) (v : Json) : Except AdapterError Token :=
  tokened (boundToken cal formats field v) (fun _ => isToken_boundToken cal formats)

def readWord (field : String) (word : List Char) : Except AdapterError Token :=
  tokened (token field (String.ofList word)) (fun _ => isToken_token)

section

variable (body : Json)

def readTerm : Except AdapterError Clause := do
  let (field, spec) ← oneField body "term"
  let value ← readValue cal formats field (leafValue spec "value")
  return .term field value

def readTerms : Except AdapterError Clause := do
  let (field, spec) ← oneField body "terms"
  match spec with
  | .array [] => .error (.bad "`terms` array must be non-empty")
  | .array (v :: arr) => do
    let value ← readValue cal formats field v
    let values ← arr.mapM (readValue cal formats field)
    return .terms field ⟨value :: values, cons_ne_nil _ _⟩
  | _ => .error (.bad "`terms` value must be an array")

def readMatch : Except AdapterError Clause := do
  let (field, spec) ← oneField body "match"
  let text ← leafText "match" spec
  let ws ← (splitWhitespace text.toList).mapM (readWord field)
  match ws with
  | [] => .error (.bad "`match` query is empty")
  | w :: ws => return .words field ⟨w :: ws, cons_ne_nil _ _⟩

def readMatchPhrase : Except AdapterError Clause := do
  let (field, spec) ← oneField body "match_phrase"
  let text ← leafText "match_phrase" spec
  if h : '\x22' ∈ text.toList ∨ '\\' ∈ text.toList then
    .error (.unsupported "`match_phrase` text may not contain quotes or backslashes")
  else return .phrase field ⟨text, (not_or.mp h).1⟩

def readField (q : String) : Json → Except AdapterError (String × Token)
  | .string f => (tokened (token f q) (fun _ => isToken_token)).map (f, ·)
  | _ => .error (.bad "`multi_match` fields must be strings")

def readMultiMatch : Except AdapterError Clause := do
  match body.get "query" with
  | some (.string q) =>
    match body.get "fields" with
    | some (.array []) => .error (.bad "`multi_match` `fields` must be non-empty")
    | some (.array (v :: fields)) => do
      let (f, word) ← readField q v
      let fs ← fields.mapM (fun v => (readField q v).map Prod.fst)
      return .multiMatch ⟨f :: fs, cons_ne_nil _ _⟩ word
    | _ => .error (.bad "`multi_match` needs a `fields` array")
  | _ => .error (.bad "`multi_match` needs a string `query`")

def readSide (field : String) (spec : Json) (inclusive exclusive : String) : Except AdapterError Bound :=
  match spec.get inclusive, spec.get exclusive with
  | some v, _ => (readValue cal formats field v).map (some ·, true)
  | none, some v => (readValue cal formats field v).map (some ·, false)
  | none, none => .ok (none, true)

def readRange : Except AdapterError Clause := do
  let (field, spec) ← oneField body "range"
  let lower ← readSide cal formats field spec "gte" "gt"
  let upper ← readSide cal formats field spec "lte" "lt"
  if lower.1.isNone ∧ upper.1.isNone then
    .error (.bad ("`range` on `" ++ field ++ "` needs at least one of gte/gt/lte/lt"))
  else return .range field lower upper

end

mutual

def readQuery : Json → Except AdapterError Clause
  | .object [(clause, body)] =>
    match clause with
    | "match_all" => .ok .matchAll
    | "term" => readTerm cal formats body
    | "terms" => readTerms cal formats body
    | "match" => readMatch body
    | "match_phrase" => readMatchPhrase body
    | "multi_match" => readMultiMatch body
    | "range" => readRange cal formats body
    | "bool" => readBool body
    | other => .error (.unsupported ("query type `" ++ other ++ "` is not supported by the adapter (supported: " ++
        "match, match_phrase, multi_match, term, terms, range, bool, match_all)"))
  | .object _ => .error (.bad "a query clause must have exactly one type")
  | _ => .error (.bad "query must be an object")

def readBool : Json → Except AdapterError Clause
  | .object fields => do
    let must ← readClauses "must" fields
    let filter ← readClauses "filter" fields
    let should ← readClauses "should" fields
    let mustNot ← readClauses "must_not" fields
    return .bool must filter should mustNot
  | _ => .ok (.bool [] [] [] [])

def readClauses (key : String) : List (String × Json) → Except AdapterError (List Clause)
  | [] => .ok []
  | (k, .array items) :: fields => if key = k then readItems items else readClauses key fields
  | (k, v) :: fields =>
    if key = k then
      if v.isObject then (readQuery v).map ([·])
      else .error (.bad "bool clause must be an object or array")
    else readClauses key fields

def readItems : List Json → Except AdapterError (List Clause)
  | [] => .ok []
  | c :: items => do
    let clause ← readQuery c
    let clauses ← readItems items
    return clause :: clauses

end

end

variable {cal : Calendar} {formats : FieldFormats}

lemma readValue_text (field : String) (v : Json) :
    boundToken cal formats field v = (readValue cal formats field v).map val := (tokened_text _ _).symm

section

variable (body : Json)

lemma translateTerm_eq : translateTerm cal formats body = (readTerm cal formats body).map Clause.print :=
  bind_same fun _ => bind_map (readValue_text _ _) fun _ => rfl

lemma translateTerms_eq : translateTerms cal formats body = (readTerms cal formats body).map Clause.print := by
  refine bind_same fun ⟨field, spec⟩ => ?_
  cases spec with
  | array arr =>
    cases arr with
    | nil => rfl
    | cons v arr =>
      change (List.mapM (boundToken cal formats field) (v :: arr) >>= _) =
        (readValue cal formats field v >>= fun value => arr.mapM (readValue cal formats field) >>= _).map _
      rw [mapM_eq_map (readValue_text field), mapM_cons]
      cases readValue cal formats field v with
      | error e => rfl
      | ok value => cases arr.mapM (readValue cal formats field) <;> rfl
  | _ => rfl

lemma translateMatch_eq : translateMatch body = (readMatch body).map Clause.print := by
  refine bind_same fun ⟨field, spec⟩ => bind_same fun text => ?_
  refine bind_map (mapM_eq_map (fun w => (tokened_text _ _).symm) _) fun ws => ?_
  match ws with
  | [] => rfl
  | [w] => rfl
  | w :: w' :: ws => rfl

lemma translateMatchPhrase_eq : translateMatchPhrase body = (readMatchPhrase body).map Clause.print := by
  refine bind_same fun p => bind_same fun text => ?_
  by_cases h : '\x22' ∈ text.toList ∨ '\\' ∈ text.toList
  · rw [if_pos h, dif_pos h]
    rfl
  · rw [if_neg h, dif_neg h]
    rfl

lemma token_ok (h : token field value = .ok s) : s = value := by
  unfold token at h
  split_ifs at h
  exact (ok.inj h).symm

lemma readField_word (h : readField q v = .ok p) : p.2.val = q := by
  cases v with
  | string f =>
    obtain ⟨word, hword, rfl⟩ := map_ok h
    have htext := tokened_text (token f q) (fun _ => isToken_token)
    rw [hword] at htext
    exact token_ok htext.symm
  | _ => cases h

lemma readField_text (q : String) (v : Json) : fieldPart q v = (readField q v).map (fun p => p.1 ++ ":" ++ q) := by
  cases v with
  | string f =>
    have htext := tokened_text (token f q) (fun _ => isToken_token)
    unfold readField fieldPart
    dsimp only
    cases hword : tokened (token f q) (fun _ => isToken_token) with
    | error e =>
      rw [hword] at htext
      rw [← htext]
      rfl
    | ok word =>
      rw [hword] at htext
      rw [← htext, ← token_ok htext.symm]
      rfl
  | _ => rfl

lemma translateMultiMatch_eq : translateMultiMatch body = (readMultiMatch body).map Clause.print := by
  unfold translateMultiMatch readMultiMatch
  cases body.get "query" with
  | none => rfl
  | some query =>
    cases query with
    | string q =>
      cases body.get "fields" with
      | none => rfl
      | some fields =>
        cases fields with
        | array fields =>
          cases fields with
          | nil => rfl
          | cons v fields =>
            change (List.mapM _ (v :: fields) >>= _) =
              (readField q v >>= fun p => fields.mapM (fun v => (readField q v).map Prod.fst) >>= _).map _
            rw [mapM_eq_map (readField_text q), mapM_cons, mapM_map]
            cases hv : readField q v with
            | error e => rfl
            | ok p =>
              cases fields.mapM (readField q) with
              | error e => rfl
              | ok ps =>
                change ok _ = ok _
                simp [Clause.print, readField_word hv, Function.comp_def]
        | _ => rfl
    | _ => rfl

lemma rangeSide_eq (field : String) (spec : Json) (inclusive exclusive : String) :
    rangeSide cal formats field spec inclusive exclusive =
      (readSide cal formats field spec inclusive exclusive).map (fun b => (b.1.map val, b.2)) := by
  have hmap : ∀ v (closed : Bool), (boundToken cal formats field v).map (some ·, closed) =
      Except.map (fun b => (b.1.map val, b.2)) ((readValue cal formats field v).map (some ·, closed)) := by
    intro v closed
    rw [readValue_text]
    cases readValue cal formats field v <;> rfl
  unfold rangeSide readSide
  cases spec.get inclusive with
  | some v => exact hmap v true
  | none =>
    cases spec.get exclusive with
    | some v => exact hmap v false
    | none => rfl

lemma translateRange_eq : translateRange cal formats body = (readRange cal formats body).map Clause.print := by
  refine bind_same fun p => bind_map (rangeSide_eq _ _ _ _) fun lower => bind_map (rangeSide_eq _ _ _ _) fun upper => ?_
  simp only [Option.isNone_map]
  by_cases hnone : lower.1.isNone ∧ upper.1.isNone
  · rw [if_pos hnone, if_pos hnone]
    rfl
  · rw [if_neg hnone, if_neg hnone]
    change ok _ = ok _
    simp only [Clause.print, boundsText, String.append_assoc]

end

mutual

lemma translateQuery_eq : (j : Json) → translateQuery cal formats j = (readQuery cal formats j).map Clause.print
  | .object [(clause, body)] => by
    unfold translateQuery readQuery
    split
    · rfl
    · exact translateTerm_eq body
    · exact translateTerms_eq body
    · exact translateMatch_eq body
    · exact translateMatchPhrase_eq body
    · exact translateMultiMatch_eq body
    · exact translateRange_eq body
    · exact translateBool_eq body
    · first
      | rfl
      | split <;> first | contradiction | rfl
  | .object [] | .object (_ :: _ :: _) | .null | .bool _ | .number _ | .string _ | .array _ => rfl

lemma translateBool_eq : (j : Json) → translateBool cal formats j = (readBool cal formats j).map Clause.print
  | .object fields => by
    unfold translateBool readBool
    refine bind_map (translateClauses_eq _ fields) fun must => bind_map (translateClauses_eq _ fields) fun filter => ?_
    refine bind_map (translateClauses_eq _ fields) fun should => bind_map (translateClauses_eq _ fields) fun mustNot => ?_
    change ok _ = ok _
    simp only [Clause.print, Clause.printAll_eq]
  | .null | .bool _ | .number _ | .string _ | .array _ => rfl

lemma translateClauses_eq (key : String) : (fields : List (String × Json)) →
    translateClauses cal formats key fields = (readClauses cal formats key fields).map (List.map Clause.print)
  | [] => rfl
  | (k, v) :: fields => by
    have hrest := translateClauses_eq key fields
    have hquery := translateQuery_eq v
    cases v with
    | array items =>
      rw [translateClauses, readClauses]
      split_ifs
      · exact translateItems_eq items
      · exact hrest
    | _ =>
      rw [translateClauses, readClauses, hquery]
      · split_ifs
        · cases readQuery cal formats _ <;> rfl
        · rfl
        · exact hrest
      · simp
      · simp

lemma translateItems_eq : (items : List Json) →
    translateItems cal formats items = (readItems cal formats items).map (List.map Clause.print)
  | [] => rfl
  | c :: items => by
    rw [translateItems, readItems, translateQuery_eq c, translateItems_eq items]
    cases readQuery cal formats c with
    | error e => rfl
    | ok clause => cases readItems cal formats items <;> rfl

end

end GrowlerDB.Engine
