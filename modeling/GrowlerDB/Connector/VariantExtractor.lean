import GrowlerDB.Connector.ShardRouter
import GrowlerDB.Lib.LinkedMap

namespace GrowlerDB.Connector
open Core Lib List WireValue

inductive JsonNode
  | object (fields : List (String × JsonNode))
  | array (items : List JsonNode)
  | text (s : String)
  | bool (b : Bool)
  | int (n : Int)
  | double (x : F64)
  | null

inductive VariantType
  | text
  | keyword
  | long
  | double
  | bool
  | date
  | ip

structure VariantPath where
  path : String
  type : VariantType

structure VariantShape where
  when_ : List String
  paths : List VariantPath

structure VariantSpec where
  column : String
  flattenTerms : Bool
  flattenText : Bool
  shapes : List VariantShape

/-- An integer that is a double: 53 significant bits below the largest exponent. -/
def IsDouble (n : Int) : Prop := ∃ g e, g < 2 ^ 53 ∧ e ≤ 971 ∧ n.natAbs = g * 2 ^ e

/-- What the JSON library and the JDK convert; an integer that is a double converts to itself. -/
structure Conversions where
  parseLong : String → Option JLong
  asText : JsonNode → String
  toDouble : Int → F64
  toDouble_exact : ∀ n, IsDouble n → toDouble n = F64.ofInt n
  toLong : F64 → JLong

def longValue (n : Int) : JLong := BitVec.ofInt 64 n

def scalar : JsonNode → Option WireValue
  | .text s => some (.str s)
  | .bool b => some (.bool b)
  | .int n => some (.int (longValue n))
  | .double x => some (.float x)
  | _ => none

mutual

def walk (path : String) : JsonNode → List (String × WireValue)
  | .object fields => walkFields path fields
  | .array items => walkItems path items
  | node => ((scalar node).map (path, ·)).toList

def walkFields (path : String) : List (String × JsonNode) → List (String × WireValue)
  | [] => []
  | (key, child) :: rest => walk (path ++ "." ++ key) child ++ walkFields path rest

def walkItems (path : String) : List JsonNode → List (String × WireValue)
  | [] => []
  | child :: rest => walk path child ++ walkItems path rest

end

/-- `split("\\.")` drops trailing empty parts, unless there is no dot at all. -/
def splitDots (path : String) : List String :=
  if '.' ∈ path.toList then ((path.splitOn ".").reverse.dropWhile (· = "")).reverse else [path]

def JsonNode.get : JsonNode → String → Option JsonNode
  | .object fields, seg => fields.lookup seg
  | _, _ => none

def getPath (root : JsonNode) (path : String) : Option JsonNode := (splitDots path).foldlM JsonNode.get root

namespace VariantSpec

variable (spec : VariantSpec) (c : Conversions)

def typed : JsonNode → VariantType → Option WireValue
  | .null, _ => none
  | .int n, .long | .int n, .date => some (.int (longValue n))
  | .double x, .long | .double x, .date => some (.int (c.toLong x))
  | .text s, .long => (c.parseLong s).map .int
  | .int n, .double => some (.float (c.toDouble n))
  | .double x, .double => some (.float x)
  | .bool b, .bool => some (.bool b)
  | .text s, .text | .text s, .keyword | .text s, .ip => some (.str s)
  | node, .text | node, .keyword | node, .ip => some (.str (c.asText node))
  | _, _ => none

structure Extracted where
  discriminator : Option String
  leaves : List (String × WireValue)
  shapedFields : List (String × WireValue)
  unmatchedDiscriminator : Bool

def shapeOf (discriminator : Option String) : Option VariantShape :=
  discriminator.bind (fun d => spec.shapes.find? (·.when_.contains d))

def shaped (value : JsonNode) (p : VariantPath) : Option (String × WireValue) :=
  ((getPath value p.path).bind (typed c · p.type)).map (spec.column ++ "." ++ p.path, ·)

def extract (value : JsonNode) (discriminator : Option String) : Extracted where
  discriminator := discriminator
  leaves := if spec.flattenTerms || spec.flattenText then walk spec.column value else []
  shapedFields := LinkedMap.ofList
    (((spec.shapeOf discriminator).map VariantShape.paths).getD [] |>.filterMap (spec.shaped c value))
  unmatchedDiscriminator := !spec.shapes.isEmpty && (spec.shapeOf discriminator).isNone

end VariantSpec

/-- A step from a node to its child. -/
inductive JsonStep
  | key (key : String)
  | position (i : Nat)

mutual

/-- The scalar leaves other than null, in document order, with the way to each. -/
def JsonNode.leaves : JsonNode → List (List JsonStep × Value)
  | .object fields => fieldLeaves fields
  | .array items => itemLeaves 0 items
  | .text s => [([], .str s)]
  | .bool b => [([], .bool b)]
  | .int n => [([], .int n)]
  | .double x => [([], .float x)]
  | .null => []

def fieldLeaves : List (String × JsonNode) → List (List JsonStep × Value)
  | [] => []
  | (key, child) :: rest => child.leaves.map (fun l => (.key key :: l.1, l.2)) ++ fieldLeaves rest

def itemLeaves (i : Nat) : List JsonNode → List (List JsonStep × Value)
  | [] => []
  | child :: rest => child.leaves.map (fun l => (.position i :: l.1, l.2)) ++ itemLeaves (i + 1) rest

end

def dotted (path : String) : List JsonStep → String
  | [] => path
  | .key key :: steps => dotted (path ++ "." ++ key) steps
  | .position _ :: steps => dotted path steps

def wireLeaf (path : String) (l : List JsonStep × Value) : String × WireValue := (dotted path l.1, .ofValue l.2)

mutual

lemma walk_eq (path : String) : (node : JsonNode) → walk path node = node.leaves.map (wireLeaf path)
  | .object fields => walkFields_eq path fields
  | .array items => walkItems_eq path 0 items
  | .text _ | .bool _ | .int _ | .double _ | .null => rfl

lemma walkFields_eq (path : String) :
    (fields : List (String × JsonNode)) → walkFields path fields = (fieldLeaves fields).map (wireLeaf path)
  | [] => rfl
  | (key, child) :: rest => by
    rw [walkFields, fieldLeaves, map_append, map_map, walk_eq _ child, walkFields_eq path rest]
    rfl

lemma walkItems_eq (path : String) (i : Nat) :
    (items : List JsonNode) → walkItems path items = (itemLeaves i items).map (wireLeaf path)
  | [] => rfl
  | child :: rest => by
    rw [walkItems, itemLeaves, map_append, map_map, walk_eq path child, walkItems_eq path (i + 1) rest]
    rfl

end

def LongRange (n : Int) : Prop := -2 ^ 63 ≤ n ∧ n < 2 ^ 63

instance (n : Int) : Decidable (LongRange n) := inferInstanceAs (Decidable (_ ∧ _))

def WireValue.Denotes (w : WireValue) : Value → Prop
  | .int n => (∃ i, w = .int i ∧ i.toInt = n) ∨ IsDouble n ∧ w = .float (F64.ofInt n)
  | v => w = .ofValue v

lemma toInt_longValue_iff (n : Int) : (longValue n).toInt = n ↔ LongRange n := by
  rw [longValue, BitVec.toInt_ofInt, LongRange]
  constructor
  · intro h
    have hlow := Int.le_bmod (x := n) (m := 2 ^ 64) (by decide)
    have hhigh := Int.bmod_lt (x := n) (m := 2 ^ 64) (by decide)
    omega
  · intro h
    apply Int.bmod_eq_of_le <;> omega

lemma denotes_ofValue_iff (v : Value) : (ofValue v).Denotes v ↔ ∀ n, v = .int n → LongRange n := by
  cases v <;> simp [WireValue.Denotes, ofValue, ← toInt_longValue_iff, longValue]

/-- The value that a node has as one of the declared type: on a double path an integer too. -/
def JsonNode.ofType : JsonNode → VariantType → Option Value
  | .int n, .long | .int n, .date => if LongRange n then some (.int n) else none
  | .int n, .double => some (.int n)
  | .double x, .double => some (.float x)
  | .bool b, .bool => some (.bool b)
  | .text s, .text | .text s, .keyword | .text s, .ip => some (.str s)
  | _, _ => none

namespace VariantSpec

lemma typed_ofType (c : Conversions) {node : JsonNode} (h : node.ofType type = some v) :
    ∃ w, typed c node type = some w ∧ (w.Denotes v ↔ ∀ n, node = .int n → type = .double → IsDouble n) := by
  cases node with
  | int n =>
    cases type <;> simp only [JsonNode.ofType, reduceCtorEq] at h
    case double =>
      cases h
      refine ⟨_, rfl, fun hw m hm _ => ?_, fun hn => .inr ?_⟩
      · cases hm
        exact (hw.resolve_left nofun).1
      · have hdouble := hn n rfl rfl
        exact ⟨hdouble, by rw [c.toDouble_exact n hdouble]⟩
    all_goals
      split_ifs at h with hrange
      cases h
      exact ⟨_, rfl, by simp, fun _ => .inl ⟨_, rfl, (toInt_longValue_iff n).mpr hrange⟩⟩
  | _ =>
    cases type <;> simp only [JsonNode.ofType, reduceCtorEq] at h <;> cases h <;>
      exact ⟨_, rfl, by simp [WireValue.Denotes, ofValue]⟩

/-- The shape gives the path one type. -/
def Declares (shape : VariantShape) (path : String) (type : VariantType) : Prop :=
  ⟨path, type⟩ ∈ shape.paths ∧ ∀ q ∈ shape.paths, q.path = path → q.type = type

structure Faithful (spec : VariantSpec) (value : JsonNode) (shape : Option VariantShape) (e : Extracted) : Prop where
  leaves : Forall₂ (fun w l => w.1 = dotted spec.column l.1 ∧ w.2.Denotes l.2) e.leaves value.leaves
  shaped : ∀ s ∈ shape, ∀ path type, Declares s path type → ∀ node ∈ getPath value path, ∀ v ∈ node.ofType type,
    ∃ w, LinkedMap.get e.shapedFields (spec.column ++ "." ++ path) = some w ∧ w.Denotes v

variable {spec : VariantSpec} {value : JsonNode}

lemma leaves_faithful_iff (column : String) (value : JsonNode) :
    Forall₂ (fun w l => w.1 = dotted column l.1 ∧ w.2.Denotes l.2) (walk column value) value.leaves ↔
      ∀ l ∈ value.leaves, ∀ n, l.2 = .int n → LongRange n := by
  rw [walk_eq, forall₂_map_left_iff, forall₂_same]
  simp only [wireLeaf, true_and, denotes_ofValue_iff]

lemma shaped_declared {c : Conversions} {shape : VariantShape} (h : Declares shape path type)
    (hnode : getPath value path = some node) (hw : typed c node type = some w) :
    LinkedMap.get (LinkedMap.ofList (shape.paths.filterMap (spec.shaped c value))) (spec.column ++ "." ++ path) =
      some w := by
  have hyields : ∀ q ∈ shape.paths, q.path = path →
      spec.shaped c value q = some (spec.column ++ "." ++ path, w) := by
    rintro q hq rfl
    simp [shaped, hnode, h.2 q hq rfl, hw]
  have hmem := mem_filterMap.mpr ⟨_, h.1, hyields _ h.1 rfl⟩
  obtain ⟨w', hw'⟩ := LinkedMap.lastValue_isSome (mem_map_of_mem hmem)
  rw [LinkedMap.get_ofList, hw']
  obtain ⟨q, hq, hyield⟩ := mem_filterMap.mp (LinkedMap.mem_of_lastValue hw')
  obtain ⟨t, -, ht⟩ := Option.map_eq_some_iff.mp hyield
  have hpath : q.path = path := by simpa using congrArg Prod.fst ht
  cases (hyields q hq hpath).symm.trans hyield
  rfl

/-- A row is extracted faithfully exactly if all its integers are in the range of a long, and those on a path declared
double are doubles. -/
theorem extract_faithful_iff (spec : VariantSpec) (hflatten : (spec.flattenTerms || spec.flattenText) = true)
    (c : Conversions) (value : JsonNode) (discriminator : Option String) :
    Faithful spec value (spec.shapeOf discriminator) (spec.extract c value discriminator) ↔
      (∀ l ∈ value.leaves, ∀ n, l.2 = .int n → LongRange n) ∧
      ∀ s ∈ spec.shapeOf discriminator, ∀ path, Declares s path .double →
        ∀ n, getPath value path = some (.int n) → IsDouble n := by
  rw [← leaves_faithful_iff spec.column]
  constructor
  · intro h
    refine ⟨by simpa [extract, hflatten] using h.leaves, fun s hs path hdecl n hn => ?_⟩
    obtain ⟨w, hw, hdenotes⟩ := typed_ofType c (show (JsonNode.int n).ofType .double = some _ from rfl)
    obtain ⟨w', hw', hd⟩ := h.shaped s hs path .double hdecl _ hn _ rfl
    simp only [extract, Option.mem_def.mp hs] at hw'
    cases (shaped_declared hdecl hn hw).symm.trans hw'
    exact hdenotes.mp hd n rfl rfl
  · rintro ⟨hleaves, hdoubles⟩
    refine ⟨by simpa [extract, hflatten] using hleaves, ?_⟩
    intro shape hshape path type hdecl node hnode v hv
    obtain ⟨w, hw, hdenotes⟩ := typed_ofType c hv
    refine ⟨w, ?_, hdenotes.mpr ?_⟩
    · simp only [extract, Option.mem_def.mp hshape]
      exact shaped_declared hdecl hnode hw
    · rintro n rfl rfl
      exact hdoubles shape hshape path hdecl n hnode

def flatSpec : VariantSpec := ⟨"payload", true, false, [⟨["sale"], [⟨"price", .double⟩]⟩]⟩

def sale : JsonNode := .object [("price", .int 5), ("labels", .array [.text "bug", .int 7, .null])]

theorem sale_faithful : (flatSpec.flattenTerms || flatSpec.flattenText) = true ∧
    ∀ c, Faithful flatSpec sale (flatSpec.shapeOf (some "sale")) (flatSpec.extract c sale (some "sale")) := by
  refine ⟨rfl, fun c => (extract_faithful_iff flatSpec rfl c sale (some "sale")).mpr ⟨?_, ?_⟩⟩
  · simp [sale, JsonNode.leaves, fieldLeaves, itemLeaves, LongRange]
  · rintro s ⟨⟩ path ⟨hpath, -⟩ n hn
    cases mem_singleton.mp hpath
    cases hn
    exact ⟨5, 0, by decide, by decide, rfl⟩

theorem long_overflow_negates :
    (∀ c, (flatSpec.extract c (.int (2 ^ 63)) none).leaves = [("payload", .int (longValue (-2 ^ 63)))]) ∧
      ∀ c, ¬ Faithful flatSpec (.int (2 ^ 63)) none (flatSpec.extract c (.int (2 ^ 63)) none) := by
  refine ⟨fun _ => rfl, fun c h => ?_⟩
  have hall := (leaves_faithful_iff "payload" (.int (2 ^ 63))).mp h.leaves
  exact absurd (hall _ mem_cons_self _ rfl) (by decide)

end VariantSpec

end GrowlerDB.Connector
