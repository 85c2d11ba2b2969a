import GrowlerDB.Core.Window

namespace GrowlerDB.Index
open Core Lib List

inductive IndexError
  | queryType (message : String)
  | unknownField (field : String)
  | noDefaultField
  | costGuard (message : String)
  | tantivy (message : String)

variable {K : Type}

def dateValue (cal : Calendar) (path : String) (format : Option TimeFormat) (v : Value) : Option Int :=
  match format with
  | some fmt => (fmt.toMicros cal path v).toOption
  | none =>
    match v with
    | .int micros => some micros
    | .ts micros => some micros
    | _ => none

/-- A shard's schema and what it uses of Tantivy: `column` is what a DATE column gives back for a written instant,
`combine` decides a boolean query from its clauses, `leaf` decides every query that is not a date range, a boost or a
boolean. -/
structure Segment (K : Type) where
  cal : Calendar
  dateFields : String → Option (Option TimeFormat)
  column : Int → Int
  column_range : ∀ x, InI64 (column x)
  combine : List Bool → List Bool → List Bool → Bool
  combine_must : ∀ must should mustNot, combine must should mustNot = true → ∀ b ∈ must, b = true
  leaf : Query → Document K → Except IndexError Bool

namespace Segment

variable (s : Segment K)

section

variable (doc : Document K) (field : String) (format : Option TimeFormat)

def dateColumn : Option Int :=
  ((doc.get field).bind (dateValue s.cal field format)).map s.column

def rangeBound (v : Option String) : Except IndexError (Option Int) :=
  match v with
  | none => .ok none
  | some v =>
    match parseDateQueryBound s.cal v with
    | some x => .ok (some x)
    | none => .error (.queryType ("bad date (epoch micros or ISO-8601) range bound `" ++ v ++ "`"))

def aboveLower (lower : Option Int) (inclusive : Bool) (x : Int) : Bool :=
  lower.all (fun l => if inclusive then decide (l ≤ x) else decide (l < x))

def belowUpper (upper : Option Int) (inclusive : Bool) (x : Int) : Bool :=
  upper.all (fun h => if inclusive then decide (x ≤ h) else decide (x < h))

def execRange (lower : Option String) (lowerInclusive : Bool) (upper : Option String) (upperInclusive : Bool) :
    Except IndexError Bool :=
  match s.rangeBound lower, s.rangeBound upper with
  | .ok lo, .ok hi =>
    match s.dateColumn doc field format with
    | some x => .ok (aboveLower lo lowerInclusive x && belowUpper hi upperInclusive x)
    | none => .ok false
  | .error e, _ => .error e
  | .ok _, .error e => .error e

end

mutual

def exec (doc : Document K) : Query → Except IndexError Bool
  | .range field lower lowerInclusive upper upperInclusive =>
    match s.dateFields field with
    | some format => s.execRange doc field format lower lowerInclusive upper upperInclusive
    | none => s.leaf (.range field lower lowerInclusive upper upperInclusive) doc
  | .boost query _ => exec doc query
  | .bool must should mustNot filter =>
    match execAll doc must, execAll doc should, execAll doc mustNot, execAll doc filter with
    | .ok m, .ok sh, .ok n, .ok f =>
      -- a purely negative query is matched against everything
      let all := if must.isEmpty && should.isEmpty && filter.isEmpty then [true] else []
      .ok (s.combine (m ++ f ++ all) sh n)
    | .error e, _, _, _ => .error e
    | .ok _, .error e, _, _ => .error e
    | .ok _, .ok _, .error e, _ => .error e
    | .ok _, .ok _, .ok _, .error e => .error e
  | q => s.leaf q doc

def execAll (doc : Document K) : List Query → Except IndexError (List Bool)
  | [] => .ok []
  | q :: qs =>
    match exec doc q, execAll doc qs with
    | .ok b, .ok bs => .ok (b :: bs)
    | .error e, _ => .error e
    | .ok _, .error e => .error e

end

variable {s}

lemma execAll_ok {doc : Document K} (h : s.execAll doc qs = .ok bs) (ht : ∀ b ∈ bs, b) :
    ∀ q ∈ qs, s.exec doc q = .ok true := by
  induction qs generalizing bs with
  | nil => simp
  | cons q qs ih =>
    rw [execAll] at h
    cases hq : s.exec doc q with
    | error e => simp [hq] at h
    | ok b =>
      cases hqs : s.execAll doc qs with
      | error e => simp [hq, hqs] at h
      | ok bs' =>
        obtain rfl : b :: bs' = bs := by simpa [hq, hqs] using h
        intro r hr
        rcases mem_cons.mp hr with rfl | hr
        · rw [hq, ht b mem_cons_self]
        · exact ih hqs (fun c hc => ht c (mem_cons_of_mem _ hc)) r hr

lemma exec_bool {doc : Document K} {must should mustNot filter : List Query}
    (h : s.exec doc (.bool must should mustNot filter) = .ok true) :
    (∀ q ∈ must, s.exec doc q = .ok true) ∧ ∀ q ∈ filter, s.exec doc q = .ok true := by
  rw [exec] at h
  split at h
  · rename_i m sh n f hm _ _ hf
    have hall := s.combine_must _ _ _ (Except.ok.inj h)
    refine ⟨execAll_ok hm ?_, execAll_ok hf ?_⟩
    · intro b hb
      exact hall b (mem_append_left _ (mem_append_left _ hb))
    · intro b hb
      exact hall b (mem_append_left _ (mem_append_right _ hb))
  all_goals cases h

end Segment

inductive FieldType
  | text
  | keyword
  | long
  | double
  | bool
  | date
  | ip
  | vector
  | variant
  deriving DecidableEq

inductive TextRecord
  | basic
  | freq
  | position
  deriving DecidableEq

structure FlattenConfig where
  enabled : Bool
  terms : Bool
  text : Bool
  deriving DecidableEq

structure ResolvedField where
  path : String
  ty : FieldType
  format : Option TimeFormat
  fast : Bool
  indexed : Bool
  record : TextRecord
  flatten : Option FlattenConfig
  deriving DecidableEq

structure ResolvedIndex where
  fields : List ResolvedField
  tenantField : Option String

inductive DefError
  | tenantFieldUnmapped (field : String)
  | tenantFieldNotKeyword (field : String)
  deriving DecidableEq

def ResolvedIndex.checkTenantField (idx : ResolvedIndex) : Except DefError Unit :=
  match idx.tenantField with
  | none => .ok ()
  | some tf =>
    match idx.fields.find? (fun f => f.path = tf) with
    | none => .error (.tenantFieldUnmapped tf)
    | some f => if f.ty ≠ .keyword then .error (.tenantFieldNotKeyword tf) else .ok ()

inductive Tokenizer
  | raw
  | default
  deriving DecidableEq

structure TextIndexing where
  tokenizer : Tokenizer
  record : TextRecord

inductive TvFieldType
  | str (indexing : Option TextIndexing) (fast : Bool)
  | i64 (fast : Bool)
  | f64 (fast : Bool)
  | bool (fast : Bool)
  | date (fast : Bool)
  | ipAddr (fast : Bool)
  | bytes

def keyField : String := "_key"

def keyEncField : String := "_keyenc"

def flattenTermsFieldName (column : String) : String := column ++ "#terms"

def flattenTextFieldName (column : String) : String := column ++ "#text"

def stringIndexing : TextIndexing := ⟨.raw, .basic⟩

def ResolvedField.entries (f : ResolvedField) : List (String × TvFieldType) :=
  match f.ty with
  | .variant =>
    match f.flatten with
    | none => []
    | some flat =>
      (if flat.enabled && flat.terms then
        [(flattenTermsFieldName f.path, .str (some stringIndexing) false)] else []) ++
      (if flat.enabled && flat.text then
        [(flattenTextFieldName f.path, .str (some ⟨.default, .position⟩) false)] else [])
  | .text => [(f.path, .str (some ⟨.default, f.record⟩) false)]
  | .keyword => [(f.path, .str (some stringIndexing) f.fast)]
  | .long => [(f.path, .i64 f.fast)]
  | .double => [(f.path, .f64 f.fast)]
  | .bool => [(f.path, .bool f.fast)]
  | .date => [(f.path, .date f.fast)]
  | .ip => [(f.path, .ipAddr f.fast)]
  | .vector => [(f.path, .bytes)]

/-- A schema: Tantivy does not build one in which a name stands twice. -/
structure IndexSchema where
  fields : List ResolvedField
  tenantField : Option String
  nodup : ((keyField, TvFieldType.bytes) :: (keyEncField, TvFieldType.bytes) ::
    fields.flatMap ResolvedField.entries |>.map Prod.fst).Nodup

def IndexSchema.fromResolved (idx : ResolvedIndex) : Option IndexSchema :=
  if h : ((keyField, TvFieldType.bytes) :: (keyEncField, TvFieldType.bytes) ::
      idx.fields.flatMap ResolvedField.entries |>.map Prod.fst).Nodup then
    some ⟨idx.fields, idx.tenantField, h⟩
  else none

namespace IndexSchema

variable (schema : IndexSchema)

def entries : List (String × TvFieldType) :=
  (keyField, .bytes) :: (keyEncField, .bytes) :: schema.fields.flatMap ResolvedField.entries

def getField (name : String) : Option TvFieldType := schema.entries.lookup name

def hasVector (name : String) : Bool := schema.fields.any (fun f => f.path = name ∧ f.ty = .vector)

end IndexSchema

inductive IpAddr
  | v4 (a : BitVec 32)
  | v6 (a : BitVec 128)

def IpAddr.toIpv6 : IpAddr → BitVec 128
  | .v4 a => 0xFFFF00000000 + a.setWidth 128
  | .v6 a => a

/-- What indexing takes from the Rust standard library: Unicode lower case, and floats and addresses
as text. -/
structure IndexStd where
  cal : Calendar
  toLowercase : String → String
  displayF64 : F64 → String
  parseF64 : String → Option F64
  parseIpAddr : String → Option IpAddr

inductive TvValue
  | text (s : String)
  | i64 (n : Int)
  | f64 (x : F64)
  | bool (b : Bool)
  | date (micros : Int)
  | ip (a : BitVec 128)
  | vector (v : List (BitVec 32))
  deriving DecidableEq

variable (std : IndexStd)

def toIndexString : Value → String
  | .str s => s
  | .int i => String.ofList (Text.renderI64 i)
  | .float f => std.displayF64 f
  | .bool b => if b then "true" else "false"
  | .ts t => String.ofList (Text.renderI64 t)
  | .vector _ => ""

def addTypedValue (f : ResolvedField) (v : Value) : Option TvValue :=
  match f.ty, v with
  | .text, v => some (.text (toIndexString std v))
  | .keyword, v => some (.text (toIndexString std v))
  | .long, .int i => some (.i64 i)
  | .double, .float x => some (.f64 x)
  | .double, .int i => some (.f64 (F64.ofInt i))
  | .bool, .bool b => some (.bool b)
  | .date, v => (dateValue std.cal f.path f.format v).map .date
  | .ip, .str s => (std.parseIpAddr s).map (fun a => .ip a.toIpv6)
  | .vector, .vector v => some (.vector v)
  | _, _ => none

structure VariantLeaves where
  field : String
  leaves : List (String × Value)

def flattenTermSep : String := "\x01"

def flattenToken (path : String) (v : Value) : String := path ++ flattenTermSep ++ toIndexString std v

def flattenLeaves (schema : IndexSchema) (vc : VariantLeaves) : List (String × TvValue) :=
  match schema.fields.find? (fun f => f.ty = .variant ∧ f.flatten.isSome ∧ f.path = vc.field) with
  | none => []
  | some f =>
    vc.leaves.flatMap (fun leaf =>
      (if f.flatten.any (fun flat => flat.enabled && flat.terms) then
        [(flattenTermsFieldName f.path, .text (flattenToken std leaf.1 leaf.2))] else []) ++
      (match leaf.2 with
        | .str s =>
          if f.flatten.any (fun flat => flat.enabled && flat.text) then
            [(flattenTextFieldName f.path, .text s)] else []
        | _ => []))

def toTantivy (schema : IndexSchema) (doc : Document K) (variants : List VariantLeaves) :
    List (String × TvValue) :=
  schema.fields.filterMap (fun f => ((doc.get f.path).bind (addTypedValue std f)).map (f.path, ·)) ++
  variants.flatMap (flattenLeaves std schema)

end GrowlerDB.Index
