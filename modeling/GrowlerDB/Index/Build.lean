import GrowlerDB.Core.QueryParse
import GrowlerDB.Index.Schema

namespace GrowlerDB.Index
open Core Lib

inductive TermValue
  | text (s : String)
  | i64 (n : Int)
  | f64 (x : F64)
  | bool (b : Bool)
  | date (micros : Int)
  | ip (a : BitVec 128)

inductive TermBound
  | unbounded
  | included (t : TermValue)
  | excluded (t : TermValue)

inductive TvQuery
  | all
  | empty
  | term (field : String) (value : TermValue) (record : TextRecord)
  | termSet (terms : List (String × TermValue))
  | phrase (field : String) (tokens : List String) (slop : Nat)
  | regex (pattern field : String)
  | fuzzy (field value : String) (distance : Nat)
  | fieldExists (field : String)
  | range (field : String) (lower upper : TermBound)
  | boost (query : TvQuery) (factor : BitVec 32)
  | constScore (query : TvQuery) (score : BitVec 32)
  | boolean (must should mustNot : List TvQuery)

/-- What compiling a query takes from Tantivy: the tokens of a text under a field's analyzer, and why
a pattern is no regular expression. -/
structure Analysis where
  analyze : String → String → Except IndexError (List String)
  regexError : String → Option String

/-- No text has tokens, and every pattern is a regular expression. -/
def Analysis.blank : Analysis := ⟨fun _ _ => .ok [], fun _ => none⟩

def dottedStems (name : List Char) : List (List Char) :=
  ((List.range name.length).filter (fun i => name[i]? = some '.')).reverse.map (name.take ·)

namespace IndexSchema

variable (schema : IndexSchema)

def fieldKind (name : String) : Option Bool :=
  match schema.getField name with
  | some (.str (some indexing) _) => some (indexing.tokenizer = .default)
  | _ => none

def defaultTextField : Option String :=
  (schema.entries.find? (fun e => e.1 ≠ keyField ∧ schema.fieldKind e.1 = some true)).map Prod.fst

def resolveField (name : Option String) : Except IndexError (String × Bool) :=
  match name with
  | none =>
    match schema.defaultTextField with
    | some field => .ok (field, true)
    | none => .error .noDefaultField
  | some name =>
    if name = keyField then .error (.unknownField name)
    else
      let field := if (schema.getField name).isSome then name else flattenTextFieldName name
      match schema.fieldKind field with
      | some isText => .ok (field, isText)
      | none => .error (.unknownField name)

def flattenTermsField (name : String) : Option String :=
  if (schema.getField name).isSome then none
  else ((dottedStems name.toList).map (fun stem => flattenTermsFieldName (String.ofList stem))).find?
    (fun field => (schema.getField field).isSome)

def resolveTypedField (name : String) : Except IndexError TvFieldType :=
  if name = keyField then .error (.unknownField name)
  else match schema.getField name with
    | some ty => .ok ty
    | none => .error (.unknownField name)

end IndexSchema

def regexMeta : List Char := ".^$*+?()[]\x7b\x7d|\\".toList

def regexEscape (cs : List Char) : List Char :=
  cs.flatMap (fun c => if c ∈ regexMeta then ['\\', c] else [c])

def globToRegex (cs : List Char) : List Char :=
  cs.flatMap (fun c =>
    if c = '*' then ['.', '*'] else if c = '?' then ['.']
    else if c ∈ regexMeta then ['\\', c] else [c])

def guardRegex (pattern : List Char) : Except IndexError Unit :=
  match pattern with
  | [] => .error (.costGuard "empty regex")
  | ['.'] => .ok ()
  | '.' :: c :: _ =>
    if c = '*' ∨ c = '+' ∨ c = '?' then .error (.costGuard "leading `.*`/`.+` scans every term")
    else .ok ()
  | _ => .ok ()

def parseBool (v : String) : Option Bool :=
  if v = "true" then some true else if v = "false" then some false else none

variable (std : IndexStd) (an : Analysis) (schema : IndexSchema)

def fold (value : String) (isText : Bool) : String := if isText then std.toLowercase value else value

def cidrRange (cidr : String) : Option (BitVec 128 × BitVec 128) := do
  let (addr, bits) ← splitOnce '/' cidr.toList
  let ip ← std.parseIpAddr (String.ofList (Text.trimChars addr))
  let bits ← parseUnsigned (2 ^ 32) (Text.trimChars bits)
  let plen := match ip with
    | .v4 _ => bits + 96
    | .v6 _ => bits
  if plen > 128 then none
  else
    let mask : BitVec 128 := if plen = 0 then 0 else BitVec.allOnes 128 <<< (128 - plen)
    some (ip.toIpv6 &&& mask, (ip.toIpv6 &&& mask) ||| ~~~mask)

def badBound (kind v : String) : IndexError :=
  .queryType ("bad " ++ kind ++ " range bound `" ++ v ++ "`")

def rangeTerm (ty : TvFieldType) (v : String) : Except IndexError TermValue :=
  match ty with
  | .i64 _ => ((Text.parseI64 v).map (Except.ok ∘ TermValue.i64)).getD (.error (badBound "integer" v))
  | .f64 _ => ((std.parseF64 v).map (Except.ok ∘ TermValue.f64)).getD (.error (badBound "float" v))
  | .bool _ => ((parseBool v).map (Except.ok ∘ TermValue.bool)).getD (.error (badBound "bool" v))
  | .date _ => ((parseDateQueryBound std.cal v).map (Except.ok ∘ TermValue.date)).getD
      (.error (badBound "date (epoch micros or ISO-8601)" v))
  | .str _ _ => .ok (.text v)
  | .ipAddr _ => ((std.parseIpAddr v).map (fun a => Except.ok (TermValue.ip a.toIpv6))).getD
      (.error (badBound "ip" v))
  | .bytes => .error (.queryType "range unsupported for this field type")

def rangeBound (ty : TvFieldType) (v : Option String) (inclusive : Bool) :
    Except IndexError TermBound :=
  match v with
  | none => .ok .unbounded
  | some v => (rangeTerm std ty v).map (fun t => if inclusive then .included t else .excluded t)

def buildRange (field : String) (lower : Option String) (lowerInclusive : Bool)
    (upper : Option String) (upperInclusive : Bool) : Except IndexError TvQuery := do
  let ty ← schema.resolveTypedField field
  let lo ← rangeBound std ty lower lowerInclusive
  let hi ← rangeBound std ty upper upperInclusive
  .ok (.range field lo hi)

section

variable (field : Option String)

def buildTextTerm (value : String) : Except IndexError TvQuery := do
  let (field, isText) ← schema.resolveField field
  if isText then .ok (.term field (.text (std.toLowercase value)) .position)
  else .ok (.term field (.text value) .basic)

def buildNamedTerm (name value : String) : Except IndexError TvQuery :=
  match schema.flattenTermsField name with
  | some terms => .ok (.term terms (.text (name ++ flattenTermSep ++ value)) .basic)
  | none =>
    match schema.resolveTypedField name with
    | .error _ => buildTextTerm std schema (some name) value
    | .ok (.str _ _) => buildTextTerm std schema (some name) value
    | .ok (.bool _) =>
      match parseBool value with
      | some b => .ok (.term name (.bool b) .basic)
      | none => .error (.queryType ("bad bool value `" ++ value ++ "`"))
    | .ok _ => buildRange std schema name (some value) true (some value) true

def buildTerm (value : String) : Except IndexError TvQuery :=
  match field with
  | some name => buildNamedTerm std schema name value
  | none => buildTextTerm std schema none value

def buildTerms (field : String) (values : List String) : Except IndexError TvQuery :=
  match schema.flattenTermsField field with
  | some terms => .ok (.termSet (values.map (fun v => (terms, .text (field ++ flattenTermSep ++ v)))))
  | none => do
    let (field, isText) ← schema.resolveField (some field)
    .ok (.termSet (values.map (fun v => (field, .text (fold std v isText)))))

def buildMatch (text : String) (op : MatchOp) : Except IndexError TvQuery := do
  let (field, _) ← schema.resolveField field
  let tokens ← an.analyze field text
  if tokens = [] then .ok .empty
  else
    let clauses := tokens.map (fun t => TvQuery.term field (.text t) .freq)
    .ok (match op with
      | .and => .boolean clauses [] []
      | .or => .boolean [] clauses [])

def phraseQuery (field : String) (tokens : List String) (slop : Nat) : Except IndexError TvQuery :=
  match tokens with
  | [] => .ok .empty
  | [t] => .ok (.term field (.text t) .position)
  | tokens =>
    match schema.getField field with
    | some (.str (some ⟨_, .position⟩) _) => .ok (.phrase field tokens slop)
    | _ => .error (.queryType ("phrase query on `" ++ field ++ "` needs token positions, but the " ++
        "field is mapped without them — set `record: POSITION` (and reindex) to phrase-search it"))

def buildPhrase (terms : List String) (slop : Nat) : Except IndexError TvQuery :=
  let exact := buildTerm std schema field (" ".intercalate terms)
  let typed := match field with
    | none => none
    | some name => (schema.resolveTypedField name).toOption
  match typed with
  | some (.str _ _) | none => do
    let (name, isText) ← schema.resolveField field
    if isText then do
      let tokens ← terms.mapM (an.analyze name)
      phraseQuery schema name tokens.flatten slop
    else exact
  | some _ => exact

def regexQuery (pattern field : String) : Except IndexError TvQuery :=
  match an.regexError pattern with
  | some e => .error (.tantivy e)
  | none => .ok (.regex pattern field)

def buildPrefix (stem : String) : Except IndexError TvQuery := do
  let (field, isText) ← schema.resolveField field
  if stem = "" then .error (.costGuard "empty prefix")
  else regexQuery an (String.ofList (regexEscape (fold std stem isText).toList ++ ['.', '*'])) field

def buildWildcard (pattern : String) : Except IndexError TvQuery := do
  let (field, isText) ← schema.resolveField field
  if pattern.toList.head? = some '*' ∨ pattern.toList.head? = some '?' then
    .error (.costGuard "leading wildcard (`*`/`?`) scans every term")
  else regexQuery an (String.ofList (globToRegex (fold std pattern isText).toList)) field

def buildFuzzy (value : String) (distance : Nat) : Except IndexError TvQuery := do
  let (field, isText) ← schema.resolveField field
  if distance > 2 then .error (.costGuard "fuzzy distance max is 2")
  else .ok (.fuzzy field (fold std value isText) distance)

def buildRegex (pattern : String) : Except IndexError TvQuery := do
  let (field, _) ← schema.resolveField field
  guardRegex pattern.toList
  regexQuery an pattern field

end

def buildExists (field : String) : Except IndexError TvQuery :=
  if field = keyField ∨ schema.getField field = none then .error (.unknownField field)
  else .ok (.fieldExists field)

def buildIpCidr (field cidr : String) : Except IndexError TvQuery := do
  match ← schema.resolveTypedField field with
  | .ipAddr _ =>
    match cidrRange std cidr with
    | some (net, bcast) => .ok (.range field (.included (.ip net)) (.included (.ip bcast)))
    | none => .error (.queryType ("invalid CIDR `" ++ cidr ++ "`"))
  | _ => .error (.queryType ("ip_cidr requires an IP field, got `" ++ field ++ "`"))

mutual

def build : Query → Except IndexError TvQuery
  | .matchAll => .ok .all
  | .term field value => buildTerm std schema field value
  | .terms field values => buildTerms std schema field values
  | .matchText field text op => buildMatch an schema field text op
  | .phrase field terms slop => buildPhrase std an schema field terms slop
  | .startsWith field stem => buildPrefix std an schema field stem
  | .wildcard field pattern => buildWildcard std an schema field pattern
  | .fuzzy field value distance => buildFuzzy std schema field value distance
  | .regex field pattern => buildRegex an schema field pattern
  | .fieldExists field => buildExists schema field
  | .range field lower lowerInclusive upper upperInclusive =>
    buildRange std schema field lower lowerInclusive upper upperInclusive
  | .ipCidr field cidr => buildIpCidr std schema field cidr
  | .boost query factor => do
    let q ← build query
    .ok (.boost q factor)
  | .bool must should mustNot filter => do
    let m ← buildAll must
    let s ← buildAll should
    let n ← buildAll mustNot
    let f ← buildAll filter
    -- a filter constrains without scoring, and a purely negative query needs something to match
    let all := if must.isEmpty && should.isEmpty && filter.isEmpty then [TvQuery.all] else []
    .ok (.boolean (m ++ f.map (.constScore · 0) ++ all) s n)
  | .knn .. => .error (.queryType ("KNN cannot be combined lexically — run it as a top-level KNN " ++
      "search (score fusion with lexical results is not yet supported)"))

def buildAll : List Query → Except IndexError (List TvQuery)
  | [] => .ok []
  | q :: qs => do
    let b ← build q
    let bs ← buildAll qs
    .ok (b :: bs)

end

end GrowlerDB.Index
