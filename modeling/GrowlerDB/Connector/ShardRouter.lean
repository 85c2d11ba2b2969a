import GrowlerDB.Core.Routing
import Mathlib.Tactic.IntervalCases

namespace GrowlerDB.Connector
open Core Lib Bytes List Core.ShardRouter UInt8

abbrev JByte := BitVec 8
abbrev JInt := BitVec 32
abbrev JLong := BitVec 64

inductive JavaError
  | illegalArgument (message : String)
  | arrayIndexOutOfBounds (index : JInt)
  deriving DecidableEq

inductive WireValue
  | str (s : String)
  | int (i : JLong)
  | float (f : F64)
  | bool (b : Bool)
  | tsMicros (t : JLong)
  | kindNotSet
  deriving DecidableEq

structure Coordinates where
  partition : List (String × WireValue)
  identifier : List (String × WireValue)
  deriving DecidableEq

def WireValue.ofValue : Value → WireValue
  | .str s => .str s
  | .int i => .int (BitVec.ofInt 64 i)
  | .float f => .float f
  | .bool b => .bool b
  | .ts t => .tsMicros (BitVec.ofInt 64 t)
  | .vector _ => .kindNotSet

def Coordinates.ofKey (key : CompositeKey) : Coordinates :=
  ⟨key.partition.map (fun f => (f.1, .ofValue f.2)), key.identifier.map (fun f => (f.1, .ofValue f.2))⟩

def write (out : List JByte) (b : JInt) : List JByte := out ++ [b.setWidth 8]

def getBytes (s : String) : List JByte := (utf8 s).map UInt8.toBitVec

def pushBytes (out bytes : List JByte) : List JByte :=
  let n : JInt := BitVec.ofNat 32 bytes.length
  let out := write out (n &&& 0xff)
  let out := write out ((n >>> 8) &&& 0xff)
  let out := write out ((n >>> 16) &&& 0xff)
  let out := write out ((n >>> 24) &&& 0xff)
  out ++ bytes

def longLe (x : JLong) : List JByte := (List.range 8).map (fun i => (x >>> (8 * i)).setWidth 8)

def doubleToLongBits (f : F64) : JLong := if f.isNan then 0x7ff8000000000000 else f.bits

def pushValue (out : List JByte) (v : WireValue) : Except JavaError (List JByte) :=
  match v with
  | .str s => .ok (pushBytes (write out 1) (getBytes s))
  | .int i => .ok (pushBytes (write out 2) (longLe i))
  | .float f => .ok (pushBytes (write out 3) (longLe (doubleToLongBits f)))
  | .bool b => .ok (pushBytes (write out 4) [if b then 1 else 0])
  | .tsMicros t => .ok (pushBytes (write out 5) (longLe t))
  | .kindNotSet => .error (.illegalArgument "key field has no value set")

def encodeFields (out : List JByte) (role : JByte) (fields : List (String × WireValue)) :
    Except JavaError (List JByte) :=
  fields.foldlM (fun out f => pushValue (pushBytes (write out (role.signExtend 32)) (getBytes f.1)) f.2) out

def encode (partition identifier : List (String × WireValue)) : Except JavaError (List JByte) := do
  let out ← encodeFields [] 0 partition
  encodeFields out 1 identifier

def fnv1a (bytes : List JByte) : JLong :=
  bytes.foldl (fun h b => (h ^^^ (b.signExtend 64 &&& 0xff)) * 0x100000001b3#64) 0xcbf29ce484222325#64

def numBuckets : JInt := 1024

def remainderUnsigned (h : JLong) (n : JInt) : JLong := h % n.signExtend 64

structure ShardRouter where
  shards : JInt
  strategy : RoutingStrategy
  bucketOwners : Option (List JInt)

namespace ShardRouter

def max (a b : JInt) : JInt := if a.slt b then b else a

def new (shards : JInt) (strategy : RoutingStrategy) : ShardRouter := ⟨max 1 shards, strategy, none⟩

def bucketed (strategy : RoutingStrategy) (bucketOwners : List JInt) : Except JavaError ShardRouter :=
  if bucketOwners.length ≠ numBuckets.toNat then
    .error (.illegalArgument ("bucket map must have exactly " ++ toString numBuckets.toNat ++
      " entries, got " ++ toString bucketOwners.length))
  else .ok ⟨bucketOwners.foldl max 0 + 1, strategy, some bucketOwners⟩

variable (router : ShardRouter) (key : Coordinates)

def strategyBytes : Except JavaError (List JByte) :=
  if router.strategy = .partition ∧ key.partition.length > 0 then encode key.partition []
  else encode key.partition key.identifier

def bucket : Except JavaError JInt := do
  let bytes ← router.strategyBytes key
  .ok ((remainderUnsigned (fnv1a bytes) numBuckets).setWidth 32)

def ownerAt (owners : List JInt) (i : JInt) : Except JavaError JInt :=
  match (if i.slt 0 then none else owners[i.toNat]?) with
  | some owner => .ok owner
  | none => .error (.arrayIndexOutOfBounds i)

def route : Except JavaError JInt :=
  match router.bucketOwners with
  | some owners => do
    let b ← router.bucket key
    ownerAt owners b
  | none =>
    if router.shards.sle 1 then .ok 0
    else do
      let bytes ← router.strategyBytes key
      .ok ((remainderUnsigned (fnv1a bytes) router.shards).setWidth 32)

end ShardRouter

lemma unsigned_byte (b : JByte) : b.signExtend 64 &&& 0xff = b.setWidth 64 := by
  revert b
  decide +kernel

lemma low_byte (n : Nat) (hi : i < 4) :
    ((BitVec.ofNat 32 n >>> (8 * i)) &&& 0xff).setWidth 8 = (ofNat (n / 256 ^ i)).toBitVec := by
  have hand : ∀ m, m &&& 255 = m % 256 := fun m => Nat.and_two_pow_sub_one_eq_mod m 8
  apply BitVec.eq_of_toNat_eq
  simp only [BitVec.toNat_setWidth, BitVec.toNat_and, BitVec.toNat_ushiftRight, BitVec.toNat_ofNat,
    Nat.shiftRight_eq_div_pow, Nat.pow_mul, toNat_toBitVec, toNat_ofNat']
  rw [show (255 : JInt).toNat = 255 from rfl, hand]
  interval_cases i <;> omega

section

variable (out : List JByte)

lemma write_length (n : Nat) :
    write (write (write (write out (BitVec.ofNat 32 n &&& 0xff)) ((BitVec.ofNat 32 n >>> 8) &&& 0xff))
      ((BitVec.ofNat 32 n >>> 16) &&& 0xff)) ((BitVec.ofNat 32 n >>> 24) &&& 0xff) =
    out ++ (leBytes 4 n).map toBitVec := by
  have h₀ := low_byte n (i := 0) (by decide)
  have h₁ := low_byte n (i := 1) (by decide)
  have h₂ := low_byte n (i := 2) (by decide)
  have h₃ := low_byte n (i := 3) (by decide)
  simp only [Nat.mul_zero, BitVec.ushiftRight_zero] at h₀
  simp only [write, h₀, h₁, h₂, h₃, leBytes_eq_map, append_assoc]
  rfl

lemma pushBytes_eq (bytes : List UInt8) :
    pushBytes out (bytes.map toBitVec) = out ++ (Core.pushBytes bytes).map toBitVec := by
  simp only [pushBytes, length_map, write_length, Core.pushBytes, map_append, append_assoc]

lemma longLe_eq (x : JLong) : longLe x = (wordBytes x).map toBitVec := by
  rw [longLe, wordBytes, leBytes_eq_map, map_map]
  refine map_congr_left fun i _ => BitVec.eq_of_toNat_eq ?_
  rw [BitVec.toNat_setWidth, BitVec.toNat_ushiftRight, Nat.shiftRight_eq_div_pow, Nat.pow_mul,
    Function.comp_apply, toNat_toBitVec, toNat_ofNat']

def RoutableValue : Value → Prop
  | .float f => f.isNan = false
  | .vector _ => False
  | _ => True

instance : DecidablePred RoutableValue
  | .float _ => instDecidableEqBool ..
  | .vector _ => instDecidableFalse
  | .str _ | .int _ | .bool _ | .ts _ => instDecidableTrue

def Routable (key : CompositeKey) : Prop :=
  (∀ f ∈ key.partition, RoutableValue f.2) ∧ ∀ f ∈ key.identifier, RoutableValue f.2

instance (key : CompositeKey) : Decidable (Routable key) := inferInstanceAs (Decidable (_ ∧ _))

lemma pushValue_eq (h : RoutableValue v) :
    pushValue out (.ofValue v) = .ok (out ++ (Core.pushValue v).map toBitVec) := by
  cases v with
  | str s => simp [pushValue, WireValue.ofValue, getBytes, pushBytes_eq, Core.pushValue, write]
  | float f =>
    have hbits : doubleToLongBits f = f.bits := by simp [doubleToLongBits, show f.isNan = false from h]
    simp [pushValue, WireValue.ofValue, hbits, longLe_eq, pushBytes_eq, Core.pushValue, write]
  | bool b =>
    have hbyte : [if b then (1 : JByte) else 0] = [if b then (1 : UInt8) else 0].map toBitVec := by
      cases b <;> rfl
    simp only [pushValue, WireValue.ofValue, hbyte, pushBytes_eq, Core.pushValue, write]
    simp
  | vector v => cases h
  | _ => simp [pushValue, WireValue.ofValue, longLe_eq, pushBytes_eq, Core.pushValue, write]

lemma encodeFields_eq {role : UInt8} (hrole : role = 0 ∨ role = 1)
    {fields : List (String × Value)} (h : ∀ f ∈ fields, RoutableValue f.2) :
    encodeFields out role.toBitVec (fields.map (fun f => (f.1, .ofValue f.2))) =
      .ok (out ++ (fields.flatMap (encodeField role)).map toBitVec) := by
  induction fields generalizing out with
  | nil =>
    simp only [encodeFields, map_nil, flatMap_nil, foldlM_nil, append_nil]
    rfl
  | cons f fields ih =>
    obtain ⟨hf, hrest⟩ := forall_mem_cons.mp h
    have hwrite : write out (role.toBitVec.signExtend 32) = out ++ [role.toBitVec] := by
      rcases hrole with rfl | rfl <;> rfl
    rw [encodeFields, map_cons, foldlM_cons, hwrite, getBytes, pushBytes_eq, pushValue_eq _ hf]
    refine (ih _ hrest).trans ?_
    simp [encodeField]

end

lemma encode_eq {partition identifier : List (String × Value)}
    (hp : ∀ f ∈ partition, RoutableValue f.2) (hi : ∀ f ∈ identifier, RoutableValue f.2) :
    encode (partition.map (fun f => (f.1, .ofValue f.2))) (identifier.map (fun f => (f.1, .ofValue f.2))) =
      .ok ((CompositeKey.encode ⟨partition, identifier⟩).map toBitVec) := by
  have hpart := encodeFields_eq [] (.inl rfl) hp
  have hid := encodeFields_eq ((partition.flatMap (encodeField 0)).map toBitVec) (.inr rfl) hi
  rw [nil_append] at hpart
  simp only [encode, show (0 : JByte) = (0 : UInt8).toBitVec from rfl,
    show (1 : JByte) = (1 : UInt8).toBitVec from rfl, hpart, bind, Except.bind, hid,
    CompositeKey.encode, map_append]

lemma fnv1a_eq (bytes : List UInt8) : fnv1a (bytes.map toBitVec) = Core.fnv1a bytes := by
  simp only [fnv1a, Core.fnv1a, foldl_map, unsigned_byte]

variable {key : CompositeKey} {java : ShardRouter}

lemma strategyBytes_eq {rust : Core.ShardRouter}
    (hs : java.strategy = rust.strategy) (h : Routable key) :
    java.strategyBytes (.ofKey key) = .ok ((rust.strategyBytes key).map toBitVec) := by
  unfold ShardRouter.strategyBytes strategyBytes
  rw [hs]
  cases rust.strategy with
  | hash => simpa [Coordinates.ofKey] using encode_eq h.1 h.2
  | partition =>
    obtain ⟨partition, identifier⟩ := key
    cases partition with
    | nil => exact encode_eq h.1 h.2
    | cons f fields =>
      have hnone : ∀ f ∈ ([] : List (String × Value)), RoutableValue f.2 := by simp
      exact encode_eq h.1 hnone

lemma bucket_eq {rust : Core.ShardRouter}
    (hs : java.strategy = rust.strategy) (h : Routable key) :
    java.bucket (.ofKey key) = .ok (rust.bucket key) := by
  have hn : numBuckets.signExtend 64 = Core.numBuckets.setWidth 64 := by decide
  simp only [ShardRouter.bucket, strategyBytes_eq hs h, bind, Except.bind, fnv1a_eq, remainderUnsigned, hn,
    bucket]

def engineCount (count : JInt) : BitVec 32 := BitVec.ofNat 32 count.toInt.toNat

lemma clamped_count (count : JInt) :
    ShardRouter.max 1 count = (if engineCount count = 0 then 1 else engineCount count) ∧
      (ShardRouter.max 1 count).msb = false := by
  have hone : (1 : JInt).toInt = 1 := rfl
  by_cases h : 1 < count.toInt
  · have hmax : ShardRouter.max 1 count = count := if_pos (BitVec.slt_iff_toInt_lt.mpr (by rwa [hone]))
    have hmsb : count.msb = false := by
      rw [BitVec.msb_eq_toInt]
      exact decide_eq_false (by omega)
    have hnat : count.toInt.toNat = count.toNat := by rw [BitVec.toInt_eq_toNat_of_msb hmsb, Int.toNat_natCast]
    have hcount : engineCount count = count := by rw [engineCount, hnat, BitVec.ofNat_toNat, BitVec.setWidth_eq]
    have hne : count ≠ 0 := by
      rintro rfl
      exact absurd h (by decide)
    rw [hmax, hcount, if_neg hne]
    exact ⟨rfl, hmsb⟩
  · have hmax : ShardRouter.max 1 count = 1 :=
      if_neg (fun hlt => h (by rw [BitVec.slt_iff_toInt_lt, hone] at hlt; exact hlt))
    rw [hmax]
    refine ⟨?_, rfl⟩
    have hsmall : count.toInt.toNat = 0 ∨ count.toInt.toNat = 1 := by omega
    rcases hsmall with h | h <;> rw [engineCount, h] <;> rfl

lemma sle_one_iff {n : JInt} (h : n.msb = false) : n.sle 1 ↔ n ≤ 1 := by
  rw [BitVec.sle_iff_toInt_le, BitVec.toInt_eq_toNat_of_msb h, BitVec.le_def]
  exact Int.ofNat_le

lemma route_of_count {rust : Core.ShardRouter} {n : JInt}
    (hs : java.strategy = rust.strategy) (howners : java.bucketOwners = none) (hn : java.shards = n)
    (hp : rust.placement = .legacy n) (hmsb : n.msb = false) (h : Routable key) :
    ∃ shard, rust.route key = some shard ∧ java.route (.ofKey key) = .ok shard := by
  have hle := sle_one_iff hmsb
  simp only [route, ShardRouter.route, howners, hp, hn]
  by_cases hone : n ≤ 1
  · rw [if_pos hone, if_pos (hle.mpr hone)]
    exact ⟨0, rfl, rfl⟩
  · rw [if_neg hone, if_neg (fun hsle => hone (hle.mp hsle))]
    simp only [strategyBytes_eq hs h, bind, Except.bind, fnv1a_eq, remainderUnsigned,
      BitVec.signExtend_eq_setWidth_of_msb_false hmsb]
    exact ⟨_, rfl, rfl⟩

lemma route_legacy_eq (count : JInt) (strategy : RoutingStrategy) (h : Routable key) :
    ∃ shard, (new (engineCount count) strategy).route key = some shard ∧
      (ShardRouter.new count strategy).route (.ofKey key) = .ok shard := by
  obtain ⟨hcount, hmsb⟩ := clamped_count count
  exact route_of_count rfl rfl rfl (congrArg Placement.legacy hcount.symm) hmsb h

lemma ownerAt_eq (hi : i.toNat < numBuckets.toNat) (hlen : owners.length = numBuckets.toNat) :
    ∃ owner, owners[i.toNat]? = some owner ∧ ShardRouter.ownerAt owners i = .ok owner := by
  have hsmall : i.toNat < 1024 := hi
  have hnonneg : ¬ i.slt 0 := by
    have hslt : i.slt 0 = i.msb := BitVec.slt_zero_eq_msb
    rw [hslt, BitVec.msb_eq_decide, decide_eq_true_eq]
    omega
  obtain ⟨owner, howner⟩ : ∃ owner, owners[i.toNat]? = some owner :=
    ⟨owners[i.toNat], List.getElem?_eq_getElem (hlen ▸ hi)⟩
  refine ⟨owner, howner, ?_⟩
  rw [ShardRouter.ownerAt, if_neg hnonneg, howner]

lemma route_bucketed_eq {owners : List (BitVec 32)} {map : BucketMap} (hm : BucketMap.fromOwners owners = .ok map)
    (strategy : RoutingStrategy) (h : Routable key) :
    ∃ java, ShardRouter.bucketed strategy owners = .ok java ∧ java.strategy = strategy ∧
      ∃ shard, (bucketed strategy map).route key = some shard ∧
        java.route (.ofKey key) = .ok shard := by
  have howners := BucketMap.fromOwners_owners hm
  have hlen : owners.length = numBuckets.toNat := howners ▸ map.length_eq
  refine ⟨_, if_neg (not_not.mpr hlen), rfl, ?_⟩
  obtain ⟨owner, hrust, hjava⟩ :=
    ownerAt_eq (bucket_lt (bucketed strategy map) key) hlen
  refine ⟨owner, ?_, ?_⟩
  · rwa [← howners] at hrust
  · have hstrategy : (⟨owners.foldl ShardRouter.max 0 + 1, strategy, some owners⟩ : ShardRouter).strategy =
      (bucketed strategy map).strategy := rfl
    simp only [ShardRouter.route, bucket_eq hstrategy h, bind, Except.bind, hjava]

/-- The connector and the engine route a key to the same bucket and shard, for every count a Java `int` holds and
every dense table. -/
theorem routers_agree (key : CompositeKey) (h : Routable key) (strategy : RoutingStrategy) :
    (∀ count : JInt,
      (ShardRouter.new count strategy).bucket (.ofKey key) =
        .ok ((Core.ShardRouter.new (engineCount count) strategy).bucket key) ∧
      ∃ shard, (Core.ShardRouter.new (engineCount count) strategy).route key = some shard ∧
        (ShardRouter.new count strategy).route (.ofKey key) = .ok shard) ∧
    ∀ owners map, BucketMap.fromOwners owners = .ok map → ∃ java, ShardRouter.bucketed strategy owners = .ok java ∧
        java.bucket (.ofKey key) = .ok ((Core.ShardRouter.bucketed strategy map).bucket key) ∧
        ∃ shard, (Core.ShardRouter.bucketed strategy map).route key = some shard ∧
          java.route (.ofKey key) = .ok shard := by
  refine ⟨fun count => ⟨bucket_eq rfl h, route_legacy_eq count strategy h⟩, fun owners map hm => ?_⟩
  obtain ⟨java, hjava, hstrategy, hroute⟩ := route_bucketed_eq hm strategy h
  exact ⟨java, hjava, bucket_eq hstrategy h, hroute⟩

theorem routers_agree_on_sample : let key : CompositeKey := ⟨[("day", .ts 1700000000000000), ("eu", .bool true)],
      [("id", .str "é"), ("n", .int (-1)), ("x", .float ⟨0x3FF8000000000000⟩)]⟩
    ∃ shard, (Core.ShardRouter.new (engineCount 3) .hash).route key = some shard ∧
      (ShardRouter.new 3 .hash).route (.ofKey key) = .ok shard :=
  ((routers_agree _ (by decide) .hash).1 3).2

end GrowlerDB.Connector
