import GrowlerDB.Engine.Gateway
import GrowlerDB.Lib.OrdMap

namespace GrowlerDB.Engine
open Lib

variable {S T : Type}

abbrev IndexUnits (S : Type) := BTreeMap String (BTreeMap Int S)

/-- The services of a pool node that route to one unit. -/
inductive PoolMux
  | search
  | suggest
  | lookup
  | admin
  | hashWrite

structure PoolNode (S : Type) where
  units : PoolMux → IndexUnits S
  windowed : BTreeMap String S
  kinds : BTreeMap String Bool

def unitNotServed (message : String) : RpcStatus := ⟨.failedPrecondition, message⟩

def indexIsHash (kinds : BTreeMap String Bool) (index : String) : Bool :=
  if index = "" then
    match kinds.values with
    | [hash] => hash
    | _ => false
  else (kinds.get? index).getD false

def routeIndex (byIndex : BTreeMap String T) (index : String) : Except RpcStatus T :=
  if index = "" then
    match byIndex.values with
    | [t] => .ok t
    | _ => .error ⟨.invalidArgument, "a pool node serving multiple indexes requires an index selector"⟩
  else match byIndex.get? index with
    | some t => .ok t
    | none => .error (unitNotServed ("index `" ++ index ++ "` is not served by this node"))

def routeUnit (byIndex : IndexUnits S) (kinds : BTreeMap String Bool) (index : String) (window : Int) (shard : Nat) :
    Except RpcStatus S :=
  match routeIndex byIndex index with
  | .error e => .error e
  | .ok units =>
    let hash := indexIsHash kinds index
    if hash = false ∧ window = 0 then
      .error ⟨.invalidArgument, "a windowed node requires a window selector"⟩
    else
      let key := if hash then (shard : Int) else window
      match units.get? key with
      | some svc => .ok svc
      | none => .error (unitNotServed ((if hash then "shard " else "window ") ++ toString key ++
          " is not served by this node"))

/-- What a caller asks of a unit: `search`, `semantic_search`, `aggregate`, `suggest`, `get_by_key`,
`describe_index` and `reindex_index` are `unit` calls; the status, the cancel and the precheck of a reindex carry no
shard, and `explain` neither a window nor a shard. -/
inductive PoolOp
  | unit (mux : PoolMux)
  | explain
  | reindexControl
  | write
  | unsupported (mux : PoolMux) (text : String)

namespace PoolNode

variable (node : PoolNode S) (index : String)

def handle (window : Int) (shard : Nat) : PoolOp → Except RpcStatus S
  | .unit mux => routeUnit (node.units mux) node.kinds index window shard
  | .explain =>
    if indexIsHash node.kinds index then routeUnit (node.units .search) node.kinds index 0 0
    else .error ⟨.unimplemented, "explain is not yet supported over a distributed windowed index"⟩
  | .reindexControl => routeUnit (node.units .admin) node.kinds index window 0
  | .write =>
    if indexIsHash node.kinds index then routeUnit (node.units .hashWrite) node.kinds index 0 shard
    else routeIndex node.windowed index
  | .unsupported _ text => .error ⟨.unimplemented, text⟩

/-- The call that names a unit: a shard of a hash index, a window of another. -/
def ask (unit : Int) (op : PoolOp) : Except RpcStatus S :=
  if indexIsHash node.kinds index then node.handle index 0 unit.toNat op else node.handle index unit 0 op

def serviceOf (mux : PoolMux) (unit : Int) : Option S := ((node.units mux).get? index).bind (·.get? unit)

/-- The unit's own service; one writer takes the writes of all windows of an index. -/
def own (unit : Int) : PoolOp → Option S
  | .unit mux => node.serviceOf index mux unit
  | .reindexControl => node.serviceOf index .admin unit
  | .write => if indexIsHash node.kinds index then node.serviceOf index .hashWrite unit else node.windowed.get? index
  | .explain => node.serviceOf index .search unit
  | .unsupported mux _ => node.serviceOf index mux unit

/-- Handled by the service, or refused where there is none. -/
def Answers (r : Except RpcStatus S) : Option S → Prop
  | some svc => r = .ok svc
  | none => ∃ e, r = .error e

def Distinct : Prop :=
  ∀ index mux u v svc, node.serviceOf index mux u = some svc → node.serviceOf index mux v = some svc → u = v

/-- The service of unit 0 is the one that `unit` means. -/
def Sole (unit : Int) (mux : PoolMux) : Prop :=
  unit = 0 ∨ node.serviceOf index mux unit = none ∧ node.serviceOf index mux 0 = none

def Windowed (unit : Int) (mux : PoolMux) : Prop := unit = 0 → node.serviceOf index mux 0 = none

def Reachable (unit : Int) : PoolOp → Prop
  | .write => True
  | .unit mux => indexIsHash node.kinds index = false → node.Windowed index unit mux
  | .reindexControl =>
    if indexIsHash node.kinds index then node.Sole index unit .admin else node.Windowed index unit .admin
  | .explain =>
    if indexIsHash node.kinds index then node.Sole index unit .search else node.serviceOf index .search unit = none
  | .unsupported mux _ => node.serviceOf index mux unit = none

variable {node index} {unit : Int}

lemma answers_error (e : RpcStatus) (o : Option S) : Answers (.error e) o ↔ o = none := by
  cases o <;> simp [Answers]

lemma Answers.iff_eq {r : Except RpcStatus S} {o : Option S} (h : Answers r o) (o' : Option S) :
    Answers r o' ↔ o' = o := by
  cases o with
  | none =>
    obtain ⟨e, rfl⟩ := h
    exact answers_error e o'
  | some svc =>
    obtain rfl : r = .ok svc := h
    cases o' <;> simp [Answers, eq_comm]

lemma routeIndex_answers (hindex : index ≠ "") (byIndex : BTreeMap String S) :
    Answers (routeIndex byIndex index) (byIndex.get? index) := by
  rw [routeIndex, if_neg hindex]
  cases byIndex.get? index <;> simp [Answers]

lemma routeUnit_answers (node : PoolNode S) (hindex : index ≠ "") (mux : PoolMux) (window : Int) (shard : Nat)
    (hzero : indexIsHash node.kinds index ∨ window ≠ 0) :
    Answers (routeUnit (node.units mux) node.kinds index window shard)
      (node.serviceOf index mux (if indexIsHash node.kinds index then (shard : Int) else window)) := by
  rw [routeUnit, routeIndex, if_neg hindex, serviceOf]
  cases (node.units mux).get? index with
  | none => simp [Answers]
  | some units =>
    have hgo : ¬(indexIsHash node.kinds index = false ∧ window = 0) := by
      rintro ⟨hhash, hw⟩
      simp [hhash, hw] at hzero
    simp only [if_neg hgo, Option.bind_some]
    cases units.get? _ <;> simp [Answers]

lemma routeUnit_noWindow (hindex : index ≠ "") (hhash : indexIsHash node.kinds index = false) (mux : PoolMux)
    (shard : Nat) (o : Option S) : Answers (routeUnit (node.units mux) node.kinds index 0 shard) o ↔ o = none := by
  rw [routeUnit, routeIndex, if_neg hindex]
  cases (node.units mux).get? index <;> simp [hhash, answers_error]

lemma Distinct.same_iff (h : node.Distinct) (mux : PoolMux) (unit : Int) :
    node.serviceOf index mux unit = node.serviceOf index mux 0 ↔ node.Sole index unit mux := by
  constructor
  · intro heq
    cases hs : node.serviceOf index mux 0 with
    | none => exact .inr ⟨heq.trans hs, hs⟩
    | some svc => exact .inl (h index mux unit 0 svc (heq.trans hs) hs)
  · rintro (rfl | ⟨hu, h0⟩)
    · rfl
    · rw [hu, h0]

/-- A call that names a unit is handled by that unit's own service, and refused if there is none, exactly where the
unit is reachable. -/
theorem ask_answers_iff (node : PoolNode S) (h : node.Distinct) (index : String) (hindex : index ≠ "") (unit : Int)
    (hunit : indexIsHash node.kinds index = true → 0 ≤ unit) (op : PoolOp) :
    Answers (node.ask index unit op) (node.own index unit op) ↔ node.Reachable index unit op := by
  cases hhash : indexIsHash node.kinds index with
  | true =>
    have hshard : ((unit.toNat : Nat) : Int) = unit := Int.toNat_of_nonneg (hunit hhash)
    have hroute := fun mux shard => routeUnit_answers node hindex mux 0 shard (.inl hhash)
    simp only [hhash, if_true] at hroute
    have hown := fun mux => hroute mux unit.toNat
    have hfirst := fun mux => hroute mux 0
    simp only [hshard] at hown
    cases op with
    | explain => simp [ask, handle, own, Reachable, hhash, (hfirst .search).iff_eq, h.same_iff]
    | reindexControl => simp [ask, handle, own, Reachable, hhash, (hfirst .admin).iff_eq, h.same_iff]
    | unsupported mux text => simp [ask, handle, own, Reachable, answers_error]
    | _ => simp [ask, handle, own, Reachable, hhash, hown]
  | false =>
    have hroute : ∀ mux, Answers (routeUnit (node.units mux) node.kinds index unit 0) (node.serviceOf index mux unit) ↔
        node.Windowed index unit mux := by
      intro mux
      rw [Windowed]
      by_cases hzero : unit = 0
      · subst hzero
        simp [routeUnit_noWindow hindex hhash]
      · have hown := routeUnit_answers node hindex mux unit 0 (.inr hzero)
        simp only [hhash, Bool.false_eq_true, if_false] at hown
        simp [hown, hzero]
    cases op with
    | unit mux => simp [ask, handle, own, Reachable, hhash, hroute]
    | reindexControl => simp [ask, handle, own, Reachable, hhash, hroute]
    | write => simp [ask, handle, own, Reachable, hhash, routeIndex_answers hindex]
    | _ => simp [ask, handle, own, Reachable, hhash, answers_error]

def twoUnits (second : Int) : BTreeMap Int Int := (BTreeMap.empty.insert 0 0).insert second second

/-- Shards 0 and 1 of a hash index and the windows 0 and 7 of another. -/
def twoKinds : PoolNode Int where
  units _ := (BTreeMap.empty.insert "ids" (twoUnits 1)).insert "logs" (twoUnits 7)
  windowed := BTreeMap.empty.insert "logs" 7
  kinds := BTreeMap.empty.insert "ids" true

lemma twoKinds_distinct : twoKinds.Distinct := by
  have hname : ∀ {index mux u svc}, twoKinds.serviceOf index mux u = some svc → svc = u := by
    simp only [serviceOf, twoKinds, twoUnits]
    grind [BTreeMap.get?_insert, BTreeMap.get?_empty]
  intro index mux u v svc hu hv
  exact (hname hu).symm.trans (hname hv)

theorem twoKinds_window_seven : Answers (twoKinds.ask "logs" 7 (.unit .search)) (some 7) := by
  apply (ask_answers_iff twoKinds twoKinds_distinct "logs" (by decide) 7 (by decide) (.unit .search)).2
  exact fun _ h => absurd h (by decide)

/-- Window 0 is served and refused; the cancel of a reindex and an explain meant for shard 1 reach shard 0. -/
theorem twoKinds_misrouted :
    (twoKinds.own "logs" 0 (.unit .search) = some 0 ∧ twoKinds.ask "logs" 0 (.unit .search) =
      .error ⟨.invalidArgument, "a windowed node requires a window selector"⟩) ∧
    ∀ op ∈ [PoolOp.explain, .reindexControl], twoKinds.own "ids" 1 op = some 1 ∧ twoKinds.ask "ids" 1 op = .ok 0 := by
  decide

end PoolNode

end GrowlerDB.Engine
