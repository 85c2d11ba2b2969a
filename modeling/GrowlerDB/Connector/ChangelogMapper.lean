import GrowlerDB.Connector.ShardRouter
import GrowlerDB.Lib.LinkedMap
import GrowlerDB.Lib.Ranking

namespace GrowlerDB.Connector
open Lib LinkedMap Ranking Except
open Core (SourceCheckpoint)

inductive ChangeType
  | insert
  | delete
  | updateBefore
  | updateAfter
  deriving DecidableEq

def ChangeType.isDelete (t : ChangeType) : Bool := t = .delete || t = .updateBefore

structure ChangelogRow (X : Type) where
  changeType : ChangeType
  changeOrdinal : Int
  commitSnapshotId : Int
  columns : List (String × WireValue)
  variants : List X

structure IndexMapping where
  partitionFields : List String
  identifierFields : List String
  fields : List String

structure WireDocument (X : Type) where
  key : Coordinates
  fields : List (String × WireValue)
  variants : List X
  deriving DecidableEq

inductive WireOp (X : Type)
  | upsert (doc : WireDocument X)
  | delete (key : Coordinates)
  deriving DecidableEq

structure DocBatch (X : Type) where
  ops : List (WireOp X)
  checkpoint : SourceCheckpoint
  batchId : String
  fromCheckpoint : Option SourceCheckpoint
  safeCheckpoint : Option SourceCheckpoint
  deriving DecidableEq

structure ChangelogMapper where
  mapping : IndexMapping
  replaceSnapshotIds : List Int
  doubleToString : F64 → String

namespace ChangelogMapper

variable {X : Type} (mapper : ChangelogMapper)

def compareRows (a b : ChangelogRow X) : Ordering :=
  (compare a.changeOrdinal b.changeOrdinal).then
    (compare (if a.changeType.isDelete then 0 else 1) (if b.changeType.isDelete then 0 else 1))

def field (name : String) (row : ChangelogRow X) : Except JavaError (String × WireValue) :=
  match row.columns.lookup name with
  | none => .error (.illegalArgument ("changelog row missing key column: " ++ name))
  | some value => .ok (name, value)

section

variable (row : ChangelogRow X)

def coordinates : Except JavaError Coordinates := do
  let partition ← mapper.mapping.partitionFields.mapM (field · row)
  let identifier ← mapper.mapping.identifierFields.mapM (field · row)
  .ok ⟨partition, identifier⟩

def putField (fields : List (String × WireValue)) (name : String) : List (String × WireValue) :=
  match row.columns.lookup name with
  | none => fields
  | some value => put name value fields

def toOp : Except JavaError (WireOp X) := do
  let key ← mapper.coordinates row
  if row.changeType.isDelete then .ok (.delete key)
  else .ok (.upsert ⟨key, mapper.mapping.fields.foldl (putField row) [], row.variants⟩)

def valueString : Option WireValue → String
  | none => "∅"
  | some (.str s) => "S:" ++ s
  | some (.int i) => "I:" ++ toString i.toInt
  | some (.float f) => "F:" ++ mapper.doubleToString f
  | some (.bool b) => "B:" ++ toString b
  | some (.tsMicros t) => "T:" ++ toString t.toInt
  | some .kindNotSet => "∅"

def fieldString (role : String) (row : ChangelogRow X) (name : String) : String :=
  role ++ name ++ "=" ++ mapper.valueString (row.columns.lookup name) ++ ";"

def keyString : String :=
  String.join (mapper.mapping.partitionFields.map (mapper.fieldString "p" row) ++
    mapper.mapping.identifierFields.map (mapper.fieldString "i" row))

def content : Bool := !mapper.replaceSnapshotIds.contains row.commitSnapshotId

end

def reduceRow (effective : List (String × WireOp X)) (row : ChangelogRow X) :
    Except JavaError (List (String × WireOp X)) :=
  if mapper.content row then do
    let op ← mapper.toOp row
    .ok (put (mapper.keyString row) op effective)
  else .ok effective

def toBatch (rows : List (ChangelogRow X)) (fromCheckpoint : Option SourceCheckpoint)
    (checkpoint : SourceCheckpoint) (batchId : String) (safeCheckpoint : Option SourceCheckpoint) :
    Except JavaError (DocBatch X) := do
  let effective ← (sortBy compareRows rows).foldlM mapper.reduceRow []
  .ok ⟨effective.map Prod.snd, checkpoint, batchId, fromCheckpoint, safeCheckpoint⟩

end ChangelogMapper

open Lib.Replay List

variable {name : String}

namespace WireOp

variable {X : Type}

def key : WireOp X → Coordinates
  | .upsert doc => doc.key
  | .delete key => key

def change : WireOp X → Coordinates × Option (WireDocument X)
  | .upsert doc => (doc.key, some doc)
  | .delete key => (key, none)

@[simp] lemma change_key (op : WireOp X) : op.change.1 = op.key := by cases op <;> rfl

def apply (state : Coordinates → Option (WireDocument X)) (ops : List (WireOp X)) :
    Coordinates → Option (WireDocument X) := replay state (ops.map change)

end WireOp

namespace ChangelogMapper

variable {X : Type} (mapper : ChangelogMapper)

/-- One operation for every key of the rows, and no other. -/
def OnePerKey (rows : List (ChangelogRow X)) (ops : List (WireOp X)) : Prop :=
  (ops.map WireOp.key).Nodup ∧ ∀ key, key ∈ ops.map WireOp.key ↔ ∃ row ∈ rows, mapper.coordinates row = .ok key

/-- The operations do to every state of the index what all rows do one by one. -/
def AppliesAs (seq : List (ChangelogRow X)) (ops : List (WireOp X)) : Prop :=
  ∃ all, seq.mapM mapper.toOp = .ok all ∧ ∀ state, WireOp.apply state ops = WireOp.apply state all

def HasKey (row : ChangelogRow X) : Prop :=
  ∀ name ∈ mapper.mapping.partitionFields ++ mapper.mapping.identifierFields,
    (row.columns.lookup name).isSome

/-- Rows that are not layout-only and have one rendered key have one key. -/
def KeysApart (rows : List (ChangelogRow X)) : Prop :=
  ∀ a ∈ rows, ∀ b ∈ rows, mapper.content a → mapper.content b →
    mapper.keyString a = mapper.keyString b → mapper.coordinates a = mapper.coordinates b

def changes (rows : List (ChangelogRow X)) : List (Coordinates × Option (WireDocument X)) :=
  rows.filterMap (fun row => (mapper.toOp row).toOption.map WireOp.change)

/-- Without the rows of layout-only snapshots every key has the same last change. -/
def LayoutOnly (seq : List (ChangelogRow X)) : Prop :=
  ∀ key, lastChange (mapper.changes (seq.filter mapper.content)) key = lastChange (mapper.changes seq) key

section

def keyField (row : ChangelogRow X) (name : String) : String × WireValue :=
  (name, (row.columns.lookup name).getD .kindNotSet)

def coordsOf (row : ChangelogRow X) : Coordinates :=
  ⟨mapper.mapping.partitionFields.map (keyField row), mapper.mapping.identifierFields.map (keyField row)⟩

def opOf (row : ChangelogRow X) : WireOp X :=
  if row.changeType.isDelete then .delete (mapper.coordsOf row)
  else .upsert ⟨mapper.coordsOf row, mapper.mapping.fields.foldl (putField row) [], row.variants⟩

variable {mapper} {row : ChangelogRow X}

@[simp] lemma opOf_key : (mapper.opOf row).key = mapper.coordsOf row := by
  unfold opOf
  split_ifs <;> rfl

lemma field_of_isSome (h : (row.columns.lookup name).isSome) : field name row = .ok (keyField row name) := by
  obtain ⟨v, hv⟩ := Option.isSome_iff_exists.mp h
  rw [field, keyField, hv]
  rfl

lemma isSome_of_field (h : field name row = .ok f) : (row.columns.lookup name).isSome := by
  unfold field at h
  cases hl : row.columns.lookup name with
  | none =>
    rw [hl] at h
    cases h
  | some v => rfl

lemma coordinates_of_hasKey (h : mapper.HasKey row) : mapper.coordinates row = .ok (mapper.coordsOf row) := by
  have hp : mapper.mapping.partitionFields.mapM (field · row) = .ok (mapper.mapping.partitionFields.map (keyField row)) :=
    mapM_eq_ok fun name hn => field_of_isSome (h name (mem_append_left _ hn))
  have hi : mapper.mapping.identifierFields.mapM (field · row) = .ok (mapper.mapping.identifierFields.map (keyField row)) :=
    mapM_eq_ok fun name hn => field_of_isSome (h name (mem_append_right _ hn))
  rw [coordinates, hp, hi]
  rfl

lemma hasKey_of_coordinates {key : Coordinates} (h : mapper.coordinates row = .ok key) : mapper.HasKey row := by
  obtain ⟨partition, hp, h⟩ := bind_ok h
  obtain ⟨identifier, hi, _⟩ := bind_ok h
  intro name hn
  rcases mem_append.mp hn with hn | hn
  · obtain ⟨f, hf⟩ := ok_of_mapM hp name hn
    exact isSome_of_field hf
  · obtain ⟨f, hf⟩ := ok_of_mapM hi name hn
    exact isSome_of_field hf

lemma toOp_of_hasKey (h : mapper.HasKey row) : mapper.toOp row = .ok (mapper.opOf row) := by
  rw [toOp, coordinates_of_hasKey h, opOf]
  show (if _ then _ else _) = _
  split_ifs <;> rfl

lemma hasKey_of_toOp (h : mapper.toOp row = .ok op) : mapper.HasKey row := by
  obtain ⟨key, hkey, _⟩ := bind_ok h
  exact hasKey_of_coordinates hkey

lemma keyString_congr (ha : mapper.HasKey a) (hb : mapper.HasKey b)
    (h : mapper.coordsOf a = mapper.coordsOf b) : mapper.keyString a = mapper.keyString b := by
  have hvalue : ∀ name ∈ mapper.mapping.partitionFields ++ mapper.mapping.identifierFields,
      keyField a name = keyField b name → a.columns.lookup name = b.columns.lookup name := by
    intro name hn heq
    obtain ⟨v, hv⟩ := Option.isSome_iff_exists.mp (ha name hn)
    obtain ⟨w, hw⟩ := Option.isSome_iff_exists.mp (hb name hn)
    have : v = w := by simpa [keyField, hv, hw] using heq
    rw [hv, hw, this]
  obtain ⟨hp, hi⟩ := Coordinates.mk.inj h
  rw [map_inj_left] at hp hi
  rw [keyString, keyString]
  congr 2
  · refine map_congr_left fun name hn => ?_
    rw [fieldString, fieldString, hvalue name (mem_append_left _ hn) (hp name hn)]
  · refine map_congr_left fun name hn => ?_
    rw [fieldString, fieldString, hvalue name (mem_append_right _ hn) (hi name hn)]

lemma changes_of_hasKey (h : ∀ row ∈ rows, mapper.HasKey row) :
    mapper.changes rows = (rows.map mapper.opOf).map WireOp.change := by
  rw [changes, map_map, ← filterMap_eq_map]
  refine filterMap_congr fun row hrow => ?_
  rw [toOp_of_hasKey (h row hrow)]
  rfl

end

section

variable {mapper}

def entry (mapper : ChangelogMapper) (row : ChangelogRow X) : String × WireOp X :=
  (mapper.keyString row, mapper.opOf row)

lemma foldlM_reduceRow {rows : List (ChangelogRow X)}
    (h : ∀ row ∈ rows, mapper.content row → mapper.HasKey row) (effective : List (String × WireOp X)) :
    rows.foldlM mapper.reduceRow effective = .ok (((rows.filter mapper.content).map mapper.entry).foldl
      (fun m e => put e.1 e.2 m) effective) := by
  induction rows generalizing effective with
  | nil => rfl
  | cons row rows ih =>
    obtain ⟨hrow, h⟩ := forall_mem_cons.mp h
    rw [foldlM_cons, reduceRow]
    split_ifs with hc
    · rw [toOp_of_hasKey (hrow hc), filter_cons_of_pos hc]
      exact ih h _
    · rw [filter_cons_of_neg hc]
      exact ih h _

def effective (mapper : ChangelogMapper) (rows : List (ChangelogRow X)) : List (String × WireOp X) :=
  ofList (((sortBy compareRows rows).filter mapper.content).map mapper.entry)

lemma toBatch_ok {rows : List (ChangelogRow X)} (h : ∀ row ∈ rows, mapper.content row → mapper.HasKey row)
    (start : Option SourceCheckpoint) (checkpoint : SourceCheckpoint) (batchId : String)
    (safe : Option SourceCheckpoint) : mapper.toBatch rows start checkpoint batchId safe =
      .ok ⟨(mapper.effective rows).map Prod.snd, checkpoint, batchId, start, safe⟩ := by
  rw [toBatch, foldlM_reduceRow (fun row hrow => h row (mem_sortBy.mp hrow))]
  rfl

lemma mem_content {rows : List (ChangelogRow X)} {row : ChangelogRow X} :
    row ∈ (sortBy compareRows rows).filter mapper.content ↔ row ∈ rows ∧ mapper.content row := by
  rw [mem_filter, mem_sortBy]

lemma mem_effective (h : e ∈ mapper.effective rows) : ∃ row ∈ rows, mapper.content row ∧ mapper.entry row = e := by
  obtain ⟨row, hrow, he⟩ := mem_map.mp (mem_of_lastValue (mem_ofList.mp h))
  exact ⟨row, (mem_content.mp hrow).1, (mem_content.mp hrow).2, he⟩

lemma changes_effective
    (hkeys : ∀ row ∈ rows, mapper.content row → mapper.HasKey row) (hapart : mapper.KeysApart rows) (key : Coordinates) :
    lastChange (((mapper.effective rows).map Prod.snd).map WireOp.change) key =
      lastChange (mapper.changes ((sortBy compareRows rows).filter mapper.content)) key := by
  have hrows : ∀ row ∈ (sortBy compareRows rows).filter mapper.content, mapper.HasKey row :=
    fun row hrow => hkeys row (mem_content.mp hrow).1 (mem_content.mp hrow).2
  rw [changes_of_hasKey hrows, map_map]
  refine (lastChange_ofList ?_ key).trans ?_
  · intro e he d hd
    obtain ⟨a, ha, rfl⟩ := mem_map.mp he
    obtain ⟨b, hb, rfl⟩ := mem_map.mp hd
    rw [WireOp.change_key, WireOp.change_key]
    show mapper.keyString a = mapper.keyString b ↔ (mapper.opOf a).key = (mapper.opOf b).key
    rw [opOf_key, opOf_key]
    refine ⟨fun h => ?_, keyString_congr (hrows a ha) (hrows b hb)⟩
    have := hapart a (mem_content.mp ha).1 b (mem_content.mp hb).1 (mem_content.mp ha).2 (mem_content.mp hb).2 h
    rw [coordinates_of_hasKey (hrows a ha), coordinates_of_hasKey (hrows b hb)] at this
    exact ok.inj this
  · rw [map_map, map_map]
    rfl

lemma keysApart_of_onePerKey (hkeys : ∀ row ∈ rows, mapper.HasKey row)
    (h : mapper.OnePerKey rows ((mapper.effective rows).map Prod.snd)) : mapper.KeysApart rows := by
  have hentry : ∀ row ∈ rows, ∃ e ∈ mapper.effective rows,
      e.1 = mapper.keyString row ∧ e.2.key = mapper.coordsOf row := by
    intro row hrow
    obtain ⟨op, hop, hkey⟩ := mem_map.mp ((h.2 _).mpr ⟨row, hrow, coordinates_of_hasKey (hkeys row hrow)⟩)
    obtain ⟨e, he, rfl⟩ := mem_map.mp hop
    obtain ⟨other, hother, -, rfl⟩ := mem_effective he
    have hsame : mapper.coordsOf other = mapper.coordsOf row := opOf_key.symm.trans hkey
    exact ⟨_, he, keyString_congr (hkeys other hother) (hkeys row hrow) hsame, hkey⟩
  intro a ha b hb _ _ hstring
  obtain ⟨e, he, hes, hek⟩ := hentry a ha
  obtain ⟨d, hd, hds, hdk⟩ := hentry b hb
  -- the map has one entry under the rendered key
  obtain rfl : e = d := inj_on_of_nodup_map (nodup_ofList _) he hd (hes.trans (hstring.trans hds.symm))
  rw [coordinates_of_hasKey (hkeys a ha), coordinates_of_hasKey (hkeys b hb), ← hek, hdk]

end

lemma compareRows_orders : Orders (compareRows : ChangelogRow X → ChangelogRow X → Ordering) (fun _ => True) :=
  (Orders.compare.comap ChangelogRow.changeOrdinal (fun _ _ => trivial)).andThen
    (Orders.compare.comap (fun row : ChangelogRow X => if row.changeType.isDelete then 0 else 1) (fun _ _ => trivial))

section

variable {mapper} {rows : List (ChangelogRow X)} (hkeys : ∀ row ∈ rows, mapper.HasKey row)
include hkeys

lemma mapM_toOp : (sortBy compareRows rows).mapM mapper.toOp = .ok ((sortBy compareRows rows).map mapper.opOf) :=
  mapM_eq_ok fun row hrow => toOp_of_hasKey (hkeys row (mem_sortBy.mp hrow))

lemma changes_sorted : mapper.changes (sortBy compareRows rows) =
    ((sortBy compareRows rows).map mapper.opOf).map WireOp.change :=
  changes_of_hasKey fun row hrow => hkeys row (mem_sortBy.mp hrow)

lemma appliesAs_iff (hapart : mapper.KeysApart rows) :
    mapper.AppliesAs (sortBy compareRows rows) ((mapper.effective rows).map Prod.snd) ↔
      mapper.LayoutOnly (sortBy compareRows rows) := by
  have hbatch := changes_effective (fun row hrow _ => hkeys row hrow) hapart
  constructor
  · rintro ⟨all, hall, happly⟩ key
    obtain rfl := ok.inj ((mapM_toOp hkeys).symm.trans hall)
    have : Nonempty (WireDocument X) := ⟨⟨key, [], []⟩⟩
    rw [← hbatch, changes_sorted hkeys]
    exact lastChange_of_replay happly key
  · refine fun hlayout => ⟨_, mapM_toOp hkeys, fun state => replay_of_lastChange fun key => ?_⟩
    rw [hbatch, hlayout key, changes_sorted hkeys]

lemma onePerKey_of_layoutOnly (hapart : mapper.KeysApart rows)
    (hlayout : mapper.LayoutOnly (sortBy compareRows rows)) :
    mapper.OnePerKey rows ((mapper.effective rows).map Prod.snd) := by
  have hbatch := changes_effective (fun row hrow _ => hkeys row hrow) hapart
  have hchanged : ∀ (ops : List (WireOp X)) key, key ∈ ops.map WireOp.key ↔
      lastChange (ops.map WireOp.change) key ≠ none := by
    intro ops key
    rw [Ne, lastChange_eq_none]
    simp
  constructor
  · rw [map_map]
    refine Nodup.map_on (fun e he d hd heq => ?_) (Nodup.of_map _ (nodup_ofList _))
    obtain ⟨a, ha, -, rfl⟩ := mem_effective he
    obtain ⟨b, hb, -, rfl⟩ := mem_effective hd
    have hsame : mapper.coordsOf a = mapper.coordsOf b := by simpa [entry] using heq
    exact inj_on_of_nodup_map (nodup_ofList _) he hd (keyString_congr (hkeys a ha) (hkeys b hb) hsame)
  · intro key
    rw [hchanged, hbatch, hlayout key, changes_sorted hkeys, ← hchanged, map_map]
    constructor
    · intro h
      obtain ⟨row, hrow, rfl⟩ := mem_map.mp h
      rw [mem_sortBy] at hrow
      exact ⟨row, hrow, (coordinates_of_hasKey (hkeys row hrow)).trans (congrArg _ opOf_key.symm)⟩
    · rintro ⟨row, hrow, hkey⟩
      rw [coordinates_of_hasKey (hkeys row hrow)] at hkey
      exact mem_map.mpr ⟨row, mem_sortBy.mpr hrow, opOf_key.trans (ok.inj hkey)⟩

end

/-- A batch is made, has one operation per key and does what the rows do one by one, exactly if every
row has its key, rendered keys tell keys apart and no key depends on a layout-only row. -/
theorem toBatch_last_write_wins {rows seq : List (ChangelogRow X)} (hseq : StableOrder compareRows rows seq)
    (start : Option SourceCheckpoint) (checkpoint : SourceCheckpoint) (batchId : String)
    (safe : Option SourceCheckpoint) :
    (∃ batch, mapper.toBatch rows start checkpoint batchId safe = .ok batch ∧
        mapper.OnePerKey rows batch.ops ∧ mapper.AppliesAs seq batch.ops) ↔
      (∀ row ∈ rows, mapper.HasKey row) ∧ mapper.KeysApart rows ∧ mapper.LayoutOnly seq := by
  obtain rfl := hseq.eq_sortBy compareRows_orders
  constructor
  · rintro ⟨batch, hbatch, hone, happly⟩
    have hkeys : ∀ row ∈ rows, mapper.HasKey row := by
      obtain ⟨all, hall, _⟩ := happly
      intro row hrow
      obtain ⟨op, hop⟩ := ok_of_mapM hall row (mem_sortBy.mpr hrow)
      exact hasKey_of_toOp hop
    rw [toBatch_ok (fun row hrow _ => hkeys row hrow)] at hbatch
    cases hbatch
    have hapart := keysApart_of_onePerKey hkeys hone
    exact ⟨hkeys, hapart, (appliesAs_iff hkeys hapart).mp happly⟩
  · rintro ⟨hkeys, hapart, hlayout⟩
    exact ⟨_, toBatch_ok (fun row hrow _ => hkeys row hrow) start checkpoint batchId safe,
      onePerKey_of_layoutOnly hkeys hapart hlayout, (appliesAs_iff hkeys hapart).mpr hlayout⟩

namespace SampleRows

def twoColumns : ChangelogMapper := ⟨⟨[], ["a", "b"], ["v"]⟩, [], fun _ => ""⟩

def row (changeType : ChangeType) (ordinal : Int) (a b v : String) : ChangelogRow Unit :=
  ⟨changeType, ordinal, ordinal, [("a", .str a), ("b", .str b), ("v", .str v)], []⟩

def upsert (a b v : String) : WireOp Unit := .upsert ⟨⟨[], [("a", .str a), ("b", .str b)]⟩, [("v", .str v)], []⟩

def checkpoint : SourceCheckpoint := ⟨9, some 1⟩

def updated : List (ChangelogRow Unit) :=
  [row .updateAfter 0 "x" "y" "new", row .updateBefore 0 "x" "y" "old", row .insert 0 "x" "z" "other"]

end SampleRows

open SampleRows

/-- Text that looks like a column separator renders two keys alike, and the first row is lost. -/
theorem toBatch_loses_row :
    twoColumns.toBatch [row .insert 0 "x;ib=S:y" "z" "1", row .insert 0 "x" "y;ib=S:z" "2"] none checkpoint "b" none =
      .ok ⟨[upsert "x" "y;ib=S:z" "2"], checkpoint, "b", none, none⟩ ∧
    ¬ twoColumns.OnePerKey [row .insert 0 "x;ib=S:y" "z" "1", row .insert 0 "x" "y;ib=S:z" "2"]
        [upsert "x" "y;ib=S:z" "2"] ∧
    ¬ twoColumns.AppliesAs [row .insert 0 "x;ib=S:y" "z" "1", row .insert 0 "x" "y;ib=S:z" "2"]
        [upsert "x" "y;ib=S:z" "2"] := by
  refine ⟨by decide +kernel, fun hone => ?_, ?_⟩
  · have hmem := (hone.2 ⟨[], [("a", .str "x;ib=S:y"), ("b", .str "z")]⟩).mpr
      ⟨row .insert 0 "x;ib=S:y" "z" "1", mem_cons_self, rfl⟩
    revert hmem
    decide
  · rintro ⟨all, hall, happly⟩
    obtain rfl : all = [upsert "x;ib=S:y" "z" "1", upsert "x" "y;ib=S:z" "2"] :=
      Except.ok.inj (hall.symm.trans (by decide +kernel))
    have hkey := congrFun (happly fun _ => none) ⟨[], [("a", .str "x;ib=S:y"), ("b", .str "z")]⟩
    revert hkey
    decide +kernel

theorem toBatch_of_update : ∃ batch, twoColumns.toBatch updated none checkpoint "b" none = .ok batch ∧
    twoColumns.OnePerKey updated batch.ops ∧ twoColumns.AppliesAs (sortBy compareRows updated) batch.ops := by
  have hseq := stableOrder_sortBy compareRows_orders updated
  refine (twoColumns.toBatch_last_write_wins hseq none checkpoint "b" none).mpr ⟨?_, ?_, ?_⟩
  · unfold HasKey
    decide
  · unfold KeysApart
    decide +kernel
  · intro key
    rfl

end ChangelogMapper

end GrowlerDB.Connector
