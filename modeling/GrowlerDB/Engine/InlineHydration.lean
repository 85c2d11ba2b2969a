import GrowlerDB.Connector.ShardRouter
import GrowlerDB.Engine.Gateway
import GrowlerDB.Lib.LinkedMap

namespace GrowlerDB.Engine.Hydration
open Lib LinkedMap List Option
open Connector (WireValue)

structure Field where
  name : String
  value : Option WireValue
  deriving DecidableEq

structure Coordinates where
  partition : List Field
  identifier : List Field
  deriving DecidableEq

structure HydratedRow where
  key : Option Coordinates
  fields : List Field
  deriving DecidableEq

structure SearchHit where
  coordinates : Option Coordinates
  row : Option HydratedRow
  hydrateError : String
  deriving DecidableEq

structure GetByKeyResponse where
  rows : List HydratedRow
  failedShards : Nat

section

variable (displayF64 : F64 → String)

def valueString : WireValue → String
  | .str s => s
  | .int i => toString i.toInt
  | .float f => displayF64 f
  | .bool b => toString b
  | .tsMicros t => toString t.toInt
  | .kindNotSet => ""

def composeId (coords : Coordinates) : String :=
  String.intercalate "#" ((coords.partition ++ coords.identifier).map (fun f =>
    (f.value.map (valueString displayF64)).getD ""))

def SearchHit.id (hit : SearchHit) : String := (hit.coordinates.map (composeId displayF64)).getD ""

def HydratedRow.entry (row : HydratedRow) : Option (String × HydratedRow) :=
  row.key.map (fun key => (composeId displayF64 key, row))

def SearchHit.deliver (error : String) (hit : SearchHit) : Option HydratedRow → SearchHit
  | some row => { hit with row := some row }
  | none => { hit with hydrateError := error }

def attach (error : String) : List (String × HydratedRow) → List SearchHit → List SearchHit
  | _, [] => []
  | rows, hit :: hits =>
    let id := hit.id displayF64
    hit.deliver error (get rows id) :: attach error (remove id rows) hits

def notReturned (failedShards : Nat) : String :=
  if failedShards > 0 then "row not returned (a hydration shard failed to respond)"
  else "row not returned (tenant-filtered or missing in the source)"

def hydrateHits (getByKey : List Coordinates → Except RpcStatus GetByKeyResponse)
    (hits : List SearchHit) : List SearchHit :=
  if hits = [] then hits
  else match getByKey (hits.filterMap SearchHit.coordinates) with
    | .ok r => attach displayF64 (notReturned r.failedShards)
        (ofList (r.rows.filterMap (HydratedRow.entry displayF64))) hits
    | .error status => attach displayF64 ("hydration failed: " ++ status.message) [] hits

end

def returned (getByKey : List Coordinates → Except RpcStatus GetByKeyResponse)
    (hits : List SearchHit) : List HydratedRow :=
  match getByKey (hits.filterMap SearchHit.coordinates) with
  | .ok r => r.rows
  | .error _ => []

def OwnRow (rows : List HydratedRow) (coords : Option Coordinates) (row : HydratedRow) : Prop :=
  row ∈ rows ∧ row.key.isSome ∧ row.key = coords

/-- Every hit carries a row of its own or none, and none only if no such row was returned. -/
def RowsOnOwnHits (rows : List HydratedRow) (hits out : List SearchHit) : Prop :=
  out.length = hits.length ∧ ∀ (n : Nat) (hit after : SearchHit), hits[n]? = some hit → out[n]? = some after →
    (∀ row, after.row = some row → OwnRow rows hit.coordinates row) ∧
    ((∃ row, OwnRow rows hit.coordinates row) → after.row.isSome)

section

variable (displayF64 : F64 → String)

/-- Displayed keys tell coordinates apart: the first hit of a displayed key has those of the last row with it, and no
other hit has a row. -/
def Separated (rows : List HydratedRow) (hits : List SearchHit) : Prop :=
  ∀ (n : Nat) (hit : SearchHit), hits[n]? = some hit →
    if hit.id displayF64 ∈ (hits.take n).map (SearchHit.id displayF64) then
      ¬ ∃ row, OwnRow rows hit.coordinates row
    else ∀ row, lastValue (rows.filterMap (HydratedRow.entry displayF64)) (hit.id displayF64) = some row →
      row.key = hit.coordinates

variable {displayF64}

section

variable (error : String) (rows : List (String × HydratedRow))

lemma attach_eq_handOut (hits : List SearchHit) : attach displayF64 error rows hits =
      List.zipWith (SearchHit.deliver error) hits (handOut rows (hits.map (SearchHit.id displayF64))) := by
  induction hits generalizing rows with
  | nil => rfl
  | cons hit hits ih =>
    rw [attach, ih]
    rfl

lemma length_attach (hits : List SearchHit) :
    (attach displayF64 error rows hits).length = hits.length := by
  induction hits generalizing rows with
  | nil => rfl
  | cons hit hits ih => rw [attach, length_cons, ih, length_cons]

lemma getElem?_attach {hits : List SearchHit} {hit : SearchHit} (h : hits[n]? = some hit) :
    (attach displayF64 error rows hits)[n]? = some (hit.deliver error
      (if hit.id displayF64 ∈ (hits.take n).map (SearchHit.id displayF64) then none
       else get rows (hit.id displayF64))) := by
  rw [attach_eq_handOut, List.getElem?_zipWith, getElem?_handOut, List.getElem?_map, h, map_take]
  rfl

end

variable (displayF64) in
lemma hydrateHits_eq (getByKey : List Coordinates → Except RpcStatus GetByKeyResponse)
    (hits : List SearchHit) : ∃ error, hydrateHits displayF64 getByKey hits =
      attach displayF64 error (ofList ((returned getByKey hits).filterMap (HydratedRow.entry displayF64))) hits := by
  unfold hydrateHits returned
  split_ifs with hnil
  · subst hnil
    exact ⟨"", rfl⟩
  · cases getByKey (hits.filterMap SearchHit.coordinates) with
    | _ => exact ⟨_, rfl⟩

variable {rows : List HydratedRow}

lemma mem_entries {id : String} {row : HydratedRow} :
    (id, row) ∈ rows.filterMap (HydratedRow.entry displayF64) ↔
      row ∈ rows ∧ ∃ key, row.key = some key ∧ composeId displayF64 key = id := by
  simp only [mem_filterMap, HydratedRow.entry, map_eq_some_iff, Prod.mk.injEq]
  constructor
  · rintro ⟨_, hrow, key, hkey, hid, rfl⟩
    exact ⟨hrow, key, hkey, hid⟩
  · rintro ⟨hrow, key, hkey, hid⟩
    exact ⟨row, hrow, key, hkey, hid, rfl⟩

lemma OwnRow.entry_mem {hit : SearchHit} {row : HydratedRow} (h : OwnRow rows hit.coordinates row) :
    (hit.id displayF64, row) ∈ rows.filterMap (HydratedRow.entry displayF64) := by
  obtain ⟨hrow, hsome, hkey⟩ := h
  obtain ⟨key, hk⟩ := isSome_iff_exists.mp hsome
  refine mem_entries.mpr ⟨hrow, key, hk, ?_⟩
  rw [SearchHit.id, ← hkey, hk]
  rfl

lemma deliver_row {hit : SearchHit} (h : hit.row = none) (error : String) (row : Option HydratedRow) :
    (hit.deliver error row).row = row := by
  cases row with
  | some row => rfl
  | none => exact h

lemma own_iff_separated (rows : List HydratedRow) (hit : SearchHit) (seen : Prop) [Decidable seen] :
    ((∀ row, (if seen then none else lastValue (rows.filterMap (HydratedRow.entry displayF64))
        (hit.id displayF64)) = some row → OwnRow rows hit.coordinates row) ∧
      ((∃ row, OwnRow rows hit.coordinates row) → (if seen then none else
        lastValue (rows.filterMap (HydratedRow.entry displayF64)) (hit.id displayF64)).isSome)) ↔
    if seen then ¬ ∃ row, OwnRow rows hit.coordinates row
    else ∀ row, lastValue (rows.filterMap (HydratedRow.entry displayF64)) (hit.id displayF64) = some row →
      row.key = hit.coordinates := by
  split_ifs with hseen
  · simp
  · constructor
    · intro h row hrow
      exact (h.1 row hrow).2.2
    · intro h
      refine ⟨fun row hrow => ?_, ?_⟩
      · obtain ⟨hmem, key, hkey, _⟩ := mem_entries.mp (mem_of_lastValue hrow)
        exact ⟨hmem, by rw [hkey]; rfl, h row hrow⟩
      · rintro ⟨row, hrow⟩
        have hmem : (hit.id displayF64, row) ∈ rows.filterMap (HydratedRow.entry displayF64) := hrow.entry_mem
        obtain ⟨last, hlast⟩ := lastValue_isSome (mem_map_of_mem hmem)
        rw [hlast]
        rfl

end

/-- Hydrated rows land on their own hits exactly if the displayed keys tell the coordinates apart. -/
theorem rows_on_own_hits (displayF64 : F64 → String)
    (getByKey : List Coordinates → Except RpcStatus GetByKeyResponse) (hits : List SearchHit)
    (hnew : ∀ hit ∈ hits, hit.row = none) :
    RowsOnOwnHits (returned getByKey hits) hits (hydrateHits displayF64 getByKey hits) ↔
      Separated displayF64 (returned getByKey hits) hits := by
  obtain ⟨error, hout⟩ := hydrateHits_eq displayF64 getByKey hits
  have hat : ∀ (n : Nat) (hit : SearchHit), hits[n]? = some hit → ∃ after,
      (hydrateHits displayF64 getByKey hits)[n]? = some after ∧
      after.row = if hit.id displayF64 ∈ (hits.take n).map (SearchHit.id displayF64) then none
        else lastValue ((returned getByKey hits).filterMap (HydratedRow.entry displayF64)) (hit.id displayF64) := by
    intro n hit h
    rw [hout, getElem?_attach error _ h, get_ofList]
    exact ⟨_, rfl, deliver_row (hnew hit (mem_of_getElem? h)) error _⟩
  constructor
  · rintro ⟨-, hown⟩ n hit h
    obtain ⟨after, hafter, hrow⟩ := hat n hit h
    have := hown n hit after h hafter
    rw [hrow] at this
    exact (own_iff_separated _ hit _).mp this
  · refine fun hsep => ⟨by rw [hout, length_attach], fun n hit after h hafter => ?_⟩
    obtain ⟨after', hafter', hrow⟩ := hat n hit h
    obtain rfl := some.inj (hafter.symm.trans hafter')
    rw [hrow]
    exact (own_iff_separated _ hit _).mpr (hsep n hit h)

namespace SampleHits

def coords (a b : String) : Coordinates := ⟨[], [⟨"a", some (.str a)⟩, ⟨"b", some (.str b)⟩]⟩

def hit (a b : String) : SearchHit := ⟨some (coords a b), none, ""⟩

def row (a b : String) : HydratedRow := ⟨some (coords a b), [⟨"a", some (.str a)⟩, ⟨"b", some (.str b)⟩]⟩

def getByKey (keys : List Coordinates) : Except RpcStatus GetByKeyResponse :=
  .ok ⟨keys.map (fun key => ⟨some key, key.identifier⟩), 0⟩

end SampleHits

open SampleHits

/-- With the number sign inside its values a key is displayed like another: the first hit is given the row of the
second. -/
theorem row_on_foreign_hit : returned getByKey [hit "x#y" "z", hit "x" "y#z"] = [row "x#y" "z", row "x" "y#z"] ∧
    hydrateHits (fun _ => "") getByKey [hit "x#y" "z", hit "x" "y#z"] =
      [{ hit "x#y" "z" with row := some (row "x" "y#z") },
        { hit "x" "y#z" with hydrateError := "row not returned (tenant-filtered or missing in the source)" }] ∧
    ¬ RowsOnOwnHits (returned getByKey [hit "x#y" "z", hit "x" "y#z"]) [hit "x#y" "z", hit "x" "y#z"]
      (hydrateHits (fun _ => "") getByKey [hit "x#y" "z", hit "x" "y#z"]) := by
  have hout : hydrateHits (fun _ => "") getByKey [hit "x#y" "z", hit "x" "y#z"] =
      [{ hit "x#y" "z" with row := some (row "x" "y#z") },
        { hit "x" "y#z" with hydrateError := "row not returned (tenant-filtered or missing in the source)" }] := by
    decide +kernel
  refine ⟨rfl, hout, ?_⟩
  rintro ⟨-, hown⟩
  rw [hout] at hown
  have hfirst := (hown 0 _ _ rfl rfl).1 _ rfl
  exact absurd hfirst.2.2 (by decide)

theorem rows_of_distinct_keys :
    RowsOnOwnHits (returned getByKey [hit "x" "y", hit "x" "z"]) [hit "x" "y", hit "x" "z"]
      (hydrateHits (fun _ => "") getByKey [hit "x" "y", hit "x" "z"]) := by
  have hnew : ∀ h ∈ [hit "x" "y", hit "x" "z"], h.row = none := by decide
  refine (rows_on_own_hits (fun _ => "") getByKey [hit "x" "y", hit "x" "z"] hnew).mpr fun n h hn => ?_
  match n, hn with
  | 0, rfl =>
    rw [if_neg (by decide)]
    intro r hr
    obtain rfl : row "x" "y" = r := some.inj ((by decide +kernel : _ = some (row "x" "y")).symm.trans hr)
    rfl
  | 1, rfl =>
    rw [if_neg (by decide)]
    intro r hr
    obtain rfl : row "x" "z" = r := some.inj ((by decide +kernel : _ = some (row "x" "z")).symm.trans hr)
    rfl

end GrowlerDB.Engine.Hydration
