import Mathlib.Logic.Function.Basic
import GrowlerDB.Lib.Runs
import GrowlerDB.Lib.Versioned
import Mathlib.Data.List.Infix
import Mathlib.Order.Basic

namespace GrowlerDB.ControlPlane
open Function

inductive CoreMap
  | indexes
  | aliases
  | savedQueries
  | roleBindings
  | tokens
  | credentials
  | indexBindings
  deriving DecidableEq

def CoreMap.all : List CoreMap :=
  [.indexes, .aliases, .savedQueries, .roleBindings, .tokens, .credentials, .indexBindings]

lemma CoreMap.mem_all (m : CoreMap) : m ∈ CoreMap.all := by cases m <;> decide

variable {V E : Type}

structure Mutation (V E : Type) where
  map : CoreMap
  change : V → Except E V

/-- The contents of a map, with the mutations that made them out of what was loaded. -/
structure Contents (muts : Nat → Mutation V E) (loaded : CoreMap → V) (m : CoreMap) where
  value : V
  made : List Nat
  own : ∀ t ∈ made, (muts t).map = m
  replays : made.foldlM (fun v t => (muts t).change v) (loaded m) = .ok value

variable {muts : Nat → Mutation V E} {loaded : CoreMap → V}

abbrev Maps (muts : Nat → Mutation V E) (loaded : CoreMap → V) := (m : CoreMap) → Contents muts loaded m

def Contents.fresh (m : CoreMap) : Contents muts loaded m := ⟨loaded m, [], fun _ ht => (nomatch ht), rfl⟩

def Contents.apply {t : Nat} (c : Contents muts loaded (muts t).map) {v : V} (h : (muts t).change c.value = .ok v) :
    Contents muts loaded (muts t).map where
  value := v
  made := c.made ++ [t]
  own := by
    intro u hu
    rcases List.mem_append.mp hu with hu | hu
    · exact c.own u hu
    · rw [List.mem_singleton.mp hu]
  replays := by
    rw [List.foldlM_append, c.replays]
    change ((muts t).change c.value >>= pure) = .ok v
    rw [h]
    rfl

def Holds (maps : Maps muts loaded) (t : Nat) : Prop := t ∈ (maps (muts t).map).made

instance (maps : Maps muts loaded) (t : Nat) : Decidable (Holds maps t) :=
  inferInstanceAs (Decidable (_ ∈ _))

inductive Phase (muts : Nat → Mutation V E) (loaded : CoreMap → V)
  | waiting
  /-- It has changed its map and released the map's lock. -/
  | applied
  /-- It holds the flush lock, and has the maps that are left to clone. -/
  | cloning (left : List CoreMap) (snapshot : Maps muts loaded)
  /-- It holds the flush lock and has to restore the maps; `retry` if an earlier one could not. -/
  | failed (retry : Bool)
  /-- It has read the store, and has the maps that are left to write back. -/
  | restoring (left : List CoreMap) (stored : Maps muts loaded) (retry : Bool)
  | returned (ok : Bool)

def Phase.RollingBack : Phase muts loaded → Prop
  | .failed _ => True
  | .restoring .. => True
  | _ => False

def Phase.Settled : Phase muts loaded → Prop
  | .waiting => True
  | .returned _ => True
  | _ => False

structure Registry (muts : Nat → Mutation V E) (loaded : CoreMap → V) where
  memory : Maps muts loaded
  store : Maps muts loaded
  flushLock : Option Nat
  rollbackFailed : Bool
  phase : Nat → Phase muts loaded

inductive Event
  | apply (t : Nat)
  | enter (t : Nat)
  | clone (t : Nat)
  | persist (t : Nat) (ok : Bool)
  | load (t : Nat) (ok : Bool)
  | restore (t : Nat)
  | finish (t : Nat)

def Event.Loads : Event → Prop
  | .load _ ok => ok = true
  | _ => True

namespace Registry

def start : Registry muts loaded :=
  ⟨.fresh, .fresh, none, false, fun _ => .waiting⟩

section

variable (st : Registry muts loaded)

def move (t : Nat) (p : Phase muts loaded) : Registry muts loaded :=
  { st with phase := update st.phase t p }

def step : Event → Option (Registry muts loaded)
  | .apply t =>
    match st.phase t with
    | .waiting =>
      match h : (muts t).change (st.memory (muts t).map).value with
      | .error _ => some (st.move t (.returned false))
      | .ok _ => some { st.move t .applied with
          memory := update st.memory (muts t).map ((st.memory (muts t).map).apply h) }
    | _ => none
  | .enter t =>
    match st.phase t, st.flushLock with
    | .applied, none => some { st.move t
        (if st.rollbackFailed then .failed true else .cloning CoreMap.all st.memory) with
          flushLock := some t }
    | _, _ => none
  | .clone t =>
    match st.phase t with
    | .cloning (m :: left) snapshot => some (st.move t (.cloning left (update snapshot m (st.memory m))))
    | _ => none
  | .persist t ok =>
    match st.phase t with
    | .cloning [] snapshot =>
      if ok then some { st.move t (.returned true) with store := snapshot, flushLock := none }
      else some (st.move t (.failed false))
    | _ => none
  | .load t ok =>
    match st.phase t with
    | .failed retry =>
      if ok then some (st.move t (.restoring CoreMap.all st.store retry))
      else some { st.move t (.returned false) with rollbackFailed := true, flushLock := none }
    | _ => none
  | .restore t =>
    match st.phase t with
    | .restoring (m :: left) stored retry => some { st.move t (.restoring left stored retry) with
        memory := update st.memory m (stored m) }
    | _ => none
  | .finish t =>
    match st.phase t with
    | .restoring [] _ retry => some { st.move t (.returned false) with
        rollbackFailed := if retry then false else st.rollbackFailed
        flushLock := none }
    | _ => none

inductive Steps (st : Registry muts loaded) : Event → Registry muts loaded → Prop
  | refused (hp : st.phase t = .waiting) : Steps st (.apply t) (st.move t (.returned false))
  | applied (hp : st.phase t = .waiting)
      (h : (muts t).change (st.memory (muts t).map).value = .ok v) :
      Steps st (.apply t) { st.move t .applied with
        memory := update st.memory (muts t).map ((st.memory (muts t).map).apply h) }
  | retried (hp : st.phase t = .applied) (hl : st.flushLock = none)
      (hf : st.rollbackFailed = true) :
      Steps st (.enter t) { st.move t (.failed true) with flushLock := some t }
  | entered (hp : st.phase t = .applied) (hl : st.flushLock = none)
      (hf : st.rollbackFailed = false) :
      Steps st (.enter t) { st.move t (.cloning CoreMap.all st.memory) with flushLock := some t }
  | cloned
      (hp : st.phase t = .cloning (m :: left) snapshot) :
      Steps st (.clone t) (st.move t (.cloning left (update snapshot m (st.memory m))))
  | persisted (hp : st.phase t = .cloning [] snapshot) :
      Steps st (.persist t true) { st.move t (.returned true) with store := snapshot, flushLock := none }
  | notPersisted (hp : st.phase t = .cloning [] snapshot) :
      Steps st (.persist t false) (st.move t (.failed false))
  | loaded (hp : st.phase t = .failed retry) :
      Steps st (.load t true) (st.move t (.restoring CoreMap.all st.store retry))
  | notLoaded (hp : st.phase t = .failed retry) :
      Steps st (.load t false) { st.move t (.returned false) with rollbackFailed := true, flushLock := none }
  | restored
      (hp : st.phase t = .restoring (m :: left) stored retry) :
      Steps st (.restore t) { st.move t (.restoring left stored retry) with
        memory := update st.memory m (stored m) }
  | finished
      (hp : st.phase t = .restoring [] stored retry) :
      Steps st (.finish t) { st.move t (.returned false) with
        rollbackFailed := if retry then false else st.rollbackFailed
        flushLock := none }

lemma steps_of_step {st st' : Registry muts loaded} (h : st.step e = some st') : Steps st e st' := by
  unfold step at h
  cases e with
  | apply t =>
    dsimp only at h
    split at h
    · rename_i hp
      split at h <;> cases h
      · exact .refused hp
      · rename_i v hv
        exact .applied hp hv
    · cases h
  | enter t =>
    dsimp only at h
    split at h
    · rename_i hp hl
      cases h
      cases hf : st.rollbackFailed with
      | true => exact .retried hp hl hf
      | false => exact .entered hp hl hf
    · cases h
  | clone t =>
    dsimp only at h
    split at h
    · rename_i hp
      cases h
      exact .cloned hp
    · cases h
  | persist t ok =>
    dsimp only at h
    split at h
    · rename_i hp
      cases ok <;> cases h
      · exact .notPersisted hp
      · exact .persisted hp
    · cases h
  | load t ok =>
    dsimp only at h
    split at h
    · rename_i hp
      cases ok <;> cases h
      · exact .notLoaded hp
      · exact .loaded hp
    · cases h
  | restore t =>
    dsimp only at h
    split at h
    · rename_i hp
      cases h
      exact .restored hp
    · cases h
  | finish t =>
    dsimp only at h
    split at h
    · rename_i hp
      cases h
      exact .finished hp
    · cases h

def run (events : List Event) : Option (Registry muts loaded) :=
  events.foldlM step st

end

inductive Reached (allowed : Registry muts loaded → Event → Prop) : Registry muts loaded → Prop
  | start : Reached allowed start
  | step {st st' : Registry muts loaded} (h : Reached allowed st) (ha : allowed st e)
      (hs : st.step e = some st') : Reached allowed st'

/-- No other mutation is under way, and none has stored the change of this one. -/
def Alone (st : Registry muts loaded) (t : Nat) : Prop :=
  ¬ Holds st.store t ∧ ∀ u ≠ t, (st.phase u).Settled

/-- Only a mutation that is alone has its maps rolled back, and none starts meanwhile. -/
def Calm (st : Registry muts loaded) : Event → Prop
  | .apply _ => ∀ u, ¬ (st.phase u).RollingBack
  | .enter t => st.rollbackFailed = true → st.Alone t
  | .persist t false => st.Alone t
  | _ => True

end Registry

variable {V E R : Type} {muts : Nat → Mutation V E} {loaded : CoreMap → V}

inductive Answer
  | answered
  | dropped
  | failed

inductive Persist (muts : Nat → Mutation V E) (loaded : CoreMap → V)
  | waiting
  /-- It has changed its map and released the map's lock. -/
  | applied
  /-- It holds the flush lock, from here until it returns, and has these maps left to clone. -/
  | cloning (left : List CoreMap) (snapshot : Maps muts loaded)
  /-- It found the replica to be the writer. -/
  | checked (snapshot : Maps muts loaded)
  | expecting (snapshot : Maps muts loaded) (expected : Nat)
  /-- The row was written and has the next version. -/
  | written (expected : Nat)
  /-- The row was not written, as far as the replica knows. -/
  | refused
  /-- It has given up writership and has the lock left to release. -/
  | unlocking
  /-- It has to restore the maps; `retry` if an earlier mutation could not. -/
  | failed (retry : Bool)
  | fetched (stored : Maps muts loaded) (version : Nat) (retry : Bool)
  | restoring (left : List CoreMap) (stored : Maps muts loaded) (retry : Bool)
  | returned (ok : Bool)

def Persist.Settled : Persist muts loaded → Prop
  | .waiting => True
  | .returned _ => True
  | _ => False

instance (p : Persist muts loaded) : Decidable p.Settled := by
  cases p <;> unfold Persist.Settled <;> infer_instance

def Persist.Checked : Persist muts loaded → Prop
  | .checked _ => True
  | _ => False

instance (p : Persist muts loaded) : Decidable p.Checked := by
  cases p <;> unfold Persist.Checked <;> infer_instance

def Persist.Undisturbed (promoting : Prop) : Persist muts loaded → Prop
  | .waiting => ¬ promoting
  | _ => True

instance (p : Persist muts loaded) [Decidable promoting] : Decidable (p.Undisturbed promoting) := by
  cases p <;> unfold Persist.Undisturbed <;> infer_instance

inductive Leadership (muts : Nat → Mutation V E) (loaded : CoreMap → V)
  | idle
  | racing
  | standby
  | locked
  | fetched (stored : Maps muts loaded) (version : Nat) (promote : Bool)
  | reloading (left : List CoreMap) (stored : Maps muts loaded) (promote : Bool)
  /-- It has reloaded and has its leadership left to confirm. -/
  | ready
  /-- It has given up writership and has the lock left to release. -/
  | unlocking

def Leadership.Promoting : Leadership muts loaded → Prop
  | .fetched _ _ promote => promote = true
  | .reloading _ _ promote => promote = true
  | .ready => True
  | _ => False

instance (l : Leadership muts loaded) : Decidable l.Promoting := by
  cases l <;> unfold Leadership.Promoting <;> infer_instance

def Leadership.Undisturbed (settled unchecked : Prop) : Leadership muts loaded → Prop
  | .locked => settled
  | .fetched .. => unchecked
  | _ => True

instance (l : Leadership muts loaded) [Decidable settled] [Decidable unchecked] :
    Decidable (l.Undisturbed settled unchecked) := by
  cases l <;> unfold Leadership.Undisturbed <;> infer_instance

structure Replica (muts : Nat → Mutation V E) (loaded : CoreMap → V) where
  memory : Maps muts loaded
  /-- The version of the row when it was last loaded or persisted. -/
  versions : Nat
  isWriter : Bool
  sessionAlive : Bool
  flushLock : Option Nat
  rollbackFailed : Bool
  leadership : Leadership muts loaded

def Replica.apply (rep : Replica muts loaded) (t : Nat) : Option (Replica muts loaded) :=
  match h : (muts t).change (rep.memory (muts t).map).value with
  | .error _ => none
  | .ok _ => some { rep with
      memory := update rep.memory (muts t).map ((rep.memory (muts t).map).apply h) }

structure ControlPlanes (R : Type) (muts : Nat → Mutation V E) (loaded : CoreMap → V) where
  row : Lib.Versioned (Maps muts loaded)
  lock : Option R
  replica : R → Replica muts loaded
  phase : Nat → Persist muts loaded

inductive ReplicaEvent (R : Type)
  | mutation (t : Nat) (answer : Answer)
  | leadership (r : R) (answer : Answer)
  | lose (r : R) (noticed : Bool)

namespace ControlPlanes

variable [DecidableEq R]

def start (version : Nat) : ControlPlanes R muts loaded where
  row := ⟨.fresh, version⟩
  lock := none
  replica _ := ⟨.fresh, version, false, true, none, false, .idle⟩
  phase _ := .waiting

def move (s : ControlPlanes R muts loaded) (t : Nat) (p : Persist muts loaded) : ControlPlanes R muts loaded :=
  { s with phase := update s.phase t p }

section

variable (s : ControlPlanes R muts loaded) (r : R)

def set (rep : Replica muts loaded) : ControlPlanes R muts loaded :=
  { s with replica := update s.replica r rep }

def ask (answer : Answer) : Answer :=
  if (s.replica r).sessionAlive then answer else .failed

def unlock : ControlPlanes R muts loaded :=
  { s with lock := if s.lock = some r then none else s.lock }

def askUnlock (answer : Answer) : ControlPlanes R muts loaded :=
  match s.ask r answer with
  | .failed => s
  | _ => s.unlock r

def write (answer : Answer) (expected : Nat) (snapshot : Maps muts loaded) : Lib.Versioned (Maps muts loaded) × Bool :=
  match s.ask r answer, s.row.swap expected snapshot with
  | .answered, some row => (row, true)
  | .dropped, some row => (row, false)
  | _, _ => (s.row, false)

def advance (t : Nat) (answer : Answer) : ControlPlanes R muts loaded :=
  let rep := s.replica r
  match s.phase t with
  | .waiting =>
    match rep.apply t with
    | none => s.move t (.returned false)
    | some rep => (s.move t .applied).set r rep
  | .applied =>
    if rep.flushLock.isSome then s
    else if rep.rollbackFailed then (s.move t (.failed true)).set r { rep with flushLock := some t }
    else (s.move t (.cloning CoreMap.all rep.memory)).set r { rep with flushLock := some t }
  | .cloning (m :: left) snapshot => s.move t (.cloning left (update snapshot m (rep.memory m)))
  | .cloning [] snapshot => s.move t (if rep.isWriter then .checked snapshot else .failed false)
  | .checked snapshot => s.move t (.expecting snapshot rep.versions)
  | .expecting snapshot expected =>
    let (row, known) := s.write r answer expected snapshot
    { s.move t (if known then .written expected else .refused) with row := row }
  | .written expected => (s.move t (.returned true)).set r { rep with versions := expected + 1, flushLock := none }
  | .refused => (s.move t .unlocking).set r { rep with isWriter := false }
  | .unlocking => (s.askUnlock r answer).move t (.failed false)
  | .failed retry =>
    match s.ask r answer with
    | .answered => s.move t (.fetched s.row.doc s.row.version retry)
    | _ => (s.move t (.returned false)).set r { rep with rollbackFailed := true, flushLock := none }
  | .fetched stored version retry =>
    (s.move t (.restoring CoreMap.all stored retry)).set r { rep with versions := version }
  | .restoring (m :: left) stored retry => (s.move t (.restoring left stored retry)).set r { rep with
      memory := update rep.memory m (stored m) }
  | .restoring [] _ retry => (s.move t (.returned false)).set r { rep with
      rollbackFailed := if retry then false else rep.rollbackFailed
      flushLock := none }
  | .returned _ => s

def lead (answer : Answer) : ControlPlanes R muts loaded :=
  let rep := s.replica r
  match rep.leadership with
  | .idle =>
    if rep.isWriter then
      match s.ask r answer with
      | .answered => s
      | _ => s.set r { rep with isWriter := false, leadership := .unlocking }
    else
      match answer with
      | .failed => s
      | _ => s.set r { rep with sessionAlive := true, leadership := .racing }
  | .racing =>
    let free := s.lock = none ∨ s.lock = some r
    match s.ask r answer with
    | .answered =>
      if free then { s.set r { rep with leadership := .locked } with lock := some r }
      else s.set r { rep with leadership := .standby }
    | .dropped => { s.set r { rep with leadership := .idle } with lock := if free then some r else s.lock }
    | .failed => s.set r { rep with leadership := .idle }
  | .standby =>
    match s.ask r answer with
    | .answered => s.set r { rep with leadership := .fetched s.row.doc s.row.version false }
    | _ => s.set r { rep with leadership := .idle }
  | .locked =>
    match s.ask r answer with
    | .answered => s.set r { rep with leadership := .fetched s.row.doc s.row.version true }
    | _ => s.set r { rep with isWriter := false, leadership := .unlocking }
  | .fetched stored version promote =>
    s.set r { rep with versions := version, leadership := .reloading CoreMap.all stored promote }
  | .reloading (m :: left) stored promote => s.set r { rep with
      memory := update rep.memory m (stored m)
      leadership := .reloading left stored promote }
  | .reloading [] _ promote => s.set r { rep with
      rollbackFailed := false
      leadership := if promote then .ready else .idle }
  | .ready => s.set r { rep with isWriter := true, leadership := .idle }
  | .unlocking => (s.askUnlock r answer).set r { rep with leadership := .idle }

def lose (noticed : Bool) : ControlPlanes R muts loaded :=
  let rep := s.replica r
  (s.unlock r).set r { rep with
    sessionAlive := false
    isWriter := if noticed then false else rep.isWriter }

end

def step (home : Nat → R) (s : ControlPlanes R muts loaded) : ReplicaEvent R → ControlPlanes R muts loaded
  | .mutation t answer => s.advance (home t) t answer
  | .leadership r answer => s.lead r answer
  | .lose r noticed => s.lose r noticed

/-- No mutation is under way from the load of a promotion until its confirmation, and no reload notes the version
between the two reads of a write. -/
def Undisturbed (home : Nat → R) (s : ControlPlanes R muts loaded) : ReplicaEvent R → Prop
  | .mutation t _ => (s.phase t).Undisturbed (s.replica (home t)).leadership.Promoting
  | .leadership r _ => (s.replica r).leadership.Undisturbed (∀ t, home t = r → (s.phase t).Settled)
      (∀ t, home t = r → ¬ (s.phase t).Checked)
  | .lose .. => True

end ControlPlanes

open List

variable {V E R : Type} {muts : Nat → Mutation V E} {loaded : CoreMap → V}

instance (m : CoreMap) : Preorder (Contents muts loaded m) where
  le a b := a.made <+: b.made
  le_refl a := prefix_refl a.made
  le_trans _ _ _ hab hbc := hab.trans hbc

lemma Contents.le_apply (c : Contents muts loaded (muts t).map)
    (h : (muts t).change c.value = .ok v) : c ≤ c.apply h := prefix_append _ _

lemma Holds.mono {a b : Maps muts loaded} {t : Nat} (h : Holds a t) (hab : a ≤ b) : Holds b t :=
  List.IsPrefix.subset (hab (muts t).map) h

lemma Replica.apply_cases {rep rep' : Replica muts loaded} (h : rep.apply t = some rep') :
    ∃ memory, rep' = { rep with memory := memory } ∧ rep.memory ≤ memory ∧ Holds memory t := by
  unfold Replica.apply at h
  split at h
  · cases h
  · rename_i v hv
    cases h
    refine ⟨_, rfl, ?_, ?_⟩
    · intro m
      by_cases hm : m = (muts t).map
      · subst hm
        rw [Function.update_self]
        exact Contents.le_apply _ hv
      · rw [Function.update_of_ne hm]
    · rw [Holds, Function.update_self]
      exact mem_append_right _ (mem_singleton_self t)

/-- What a mutation has cloned was in the memory, and is not behind the row if the version noted is still the current
one. -/
def PersistOk (row : Lib.Versioned (Maps muts loaded)) (rep : Replica muts loaded) (t : Nat) :
    Persist muts loaded → Prop
  | .waiting => True
  | .applied => rep.isWriter = true → Holds rep.memory t
  | .cloning left snapshot => rep.flushLock = some t ∧ (rep.isWriter = true → Holds rep.memory t ∧
      ∀ m ∉ left, row.AsOf rep.versions (fun doc => doc m ≤ snapshot m) ∧ snapshot m ≤ rep.memory m ∧
        (m = (muts t).map → Holds snapshot t))
  | .checked snapshot => rep.flushLock = some t ∧ row.AsOf rep.versions (· ≤ snapshot) ∧
      (rep.isWriter = true → snapshot ≤ rep.memory) ∧ Holds snapshot t
  | .expecting snapshot expected => rep.flushLock = some t ∧ row.AsOf expected (· ≤ snapshot) ∧
      (rep.isWriter = true → snapshot ≤ rep.memory) ∧ Holds snapshot t
  | .written expected => rep.flushLock = some t ∧ Holds row.doc t ∧
      row.AsOf (expected + 1) fun doc => rep.isWriter = true → doc ≤ rep.memory
  | .refused => rep.flushLock = some t
  | .unlocking => rep.flushLock = some t ∧ rep.isWriter = false
  | .failed _ => rep.flushLock = some t ∧ rep.isWriter = false
  | .fetched _ version _ => rep.flushLock = some t ∧ rep.isWriter = false ∧ version ≤ row.version
  | .restoring .. => rep.flushLock = some t ∧ rep.isWriter = false
  | .returned ok => ok = true → Holds row.doc t

variable {row row' : Lib.Versioned (Maps muts loaded)} {rep rep' : Replica muts loaded} {t : Nat}
  {p : Persist muts loaded}

lemma PersistOk.write (h : PersistOk row rep t p) (hv : row'.version = row.version + 1)
    (hd : row.doc ≤ row'.doc) : PersistOk row' rep t p := by
  cases p with
  | cloning left snapshot =>
    refine ⟨h.1, fun hw => ⟨(h.2 hw).1, fun m hm => ?_⟩⟩
    obtain ⟨hrow, hmem⟩ := (h.2 hw).2 m hm
    exact ⟨hrow.stale hv, hmem⟩
  | checked snapshot => exact ⟨h.1, h.2.1.stale hv, h.2.2⟩
  | expecting snapshot expected => exact ⟨h.1, h.2.1.stale hv, h.2.2⟩
  | written expected => exact ⟨h.1, h.2.1.mono hd, h.2.2.stale hv⟩
  | fetched stored version retry => exact ⟨h.1, h.2.1, by have := h.2.2; omega⟩
  | returned ok => exact fun hok => (h hok).mono hd
  | waiting => exact h
  | applied => exact h
  | refused => exact h
  | unlocking => exact h
  | failed retry => exact h
  | restoring left stored retry => exact h

structure Grows (rep rep' : Replica muts loaded) : Prop where
  writer : rep'.isWriter = true → rep.isWriter = true
  memory : rep'.isWriter = true → rep.memory ≤ rep'.memory

lemma Grows.standby (h : Grows rep rep') (hw : rep.isWriter = false) : rep'.isWriter = false := by
  rw [Bool.eq_false_iff] at hw ⊢
  exact fun hw' => hw (h.writer hw')

lemma Grows.of_standby (hw : rep'.isWriter = false) : Grows rep rep' := by
  have hwriter : ¬ rep'.isWriter := Bool.eq_false_iff.mp hw
  exact ⟨fun hw => absurd hw hwriter, fun hw => absurd hw hwriter⟩

lemma PersistOk.grow (h : PersistOk row rep t p) (hg : Grows rep rep') (hv : rep'.versions = rep.versions)
    (hl : rep'.flushLock = rep.flushLock) : PersistOk row rep' t p := by
  cases p with
  | waiting => trivial
  | applied => exact fun hw => (h (hg.writer hw)).mono (hg.memory hw)
  | cloning left snapshot =>
    refine ⟨hl.trans h.1, fun hw => ?_⟩
    obtain ⟨ht, hleft⟩ := h.2 (hg.writer hw)
    refine ⟨ht.mono (hg.memory hw), fun m hm => ?_⟩
    obtain ⟨hrow, hmem, hown⟩ := hleft m hm
    exact ⟨hv ▸ hrow, hmem.trans (hg.memory hw m), hown⟩
  | checked snapshot =>
    exact ⟨hl.trans h.1, hv ▸ h.2.1, fun hw => (h.2.2.1 (hg.writer hw)).trans (hg.memory hw), h.2.2.2⟩
  | expecting snapshot expected =>
    exact ⟨hl.trans h.1, h.2.1, fun hw => (h.2.2.1 (hg.writer hw)).trans (hg.memory hw), h.2.2.2⟩
  | written expected => exact ⟨hl.trans h.1, h.2.1, h.2.2.mono fun _ hd hw => (hd (hg.writer hw)).trans (hg.memory hw)⟩
  | refused => exact hl.trans h
  | unlocking => exact ⟨hl.trans h.1, hg.standby h.2⟩
  | failed retry => exact ⟨hl.trans h.1, hg.standby h.2⟩
  | fetched stored version retry => exact ⟨hl.trans h.1, hg.standby h.2.1, h.2.2⟩
  | restoring left stored retry => exact ⟨hl.trans h.1, hg.standby h.2⟩
  | returned ok => exact h

lemma PersistOk.outside (h : PersistOk row rep t p) (hl : rep.flushLock ≠ some t) (hg : Grows rep rep') :
    PersistOk row rep' t p := by
  cases p with
  | waiting => trivial
  | applied => exact fun hw => (h (hg.writer hw)).mono (hg.memory hw)
  | returned ok => exact h
  | refused => exact absurd h hl
  | _ => exact absurd h.1 hl

lemma PersistOk.reload (h : PersistOk row rep t p) (hp : ¬ p.Checked) (hw : rep'.isWriter = false)
    (hl : rep'.flushLock = rep.flushLock) : PersistOk row rep' t p := by
  have hg : Grows rep { rep' with versions := rep.versions } := .of_standby hw
  have h' := h.grow hg rfl hl
  cases p with
  | checked snapshot => exact absurd trivial hp
  | cloning left snapshot => exact ⟨h'.1, fun h => absurd h (Bool.eq_false_iff.mp hw)⟩
  | _ => exact h'

/-- While a loop promotes its replica, all mutations there are settled, and what it has written to memory is the row
it noted. -/
def LeadOk (row : Lib.Versioned (Maps muts loaded)) (rep : Replica muts loaded) (settled : Prop) :
    Leadership muts loaded → Prop
  | .idle => True
  | .unlocking => True
  | .racing => rep.isWriter = false
  | .standby => rep.isWriter = false
  | .locked => rep.isWriter = false
  | .fetched stored version promote => rep.isWriter = false ∧ version ≤ row.version ∧
      (promote = true → settled ∧ row.AsOf version (· = stored))
  | .reloading left stored promote => rep.isWriter = false ∧ (promote = true → settled ∧
      row.AsOf rep.versions fun doc => doc = stored ∧ ∀ m ∉ left, doc m = rep.memory m)
  | .ready => rep.isWriter = false ∧ rep.rollbackFailed = false ∧ settled ∧ row.AsOf rep.versions (· = rep.memory)

variable {quiet quiet' : Prop} {l : Leadership muts loaded}

section

variable (h : LeadOk row rep quiet l)
include h

lemma LeadOk.settled (hl : l.Promoting) : quiet := by
  cases l with
  | fetched stored version promote => exact (h.2.2 hl).1
  | reloading left stored promote => exact (h.2 hl).1
  | ready => exact h.2.2.1
  | _ => exact hl.elim

lemma LeadOk.mono (hs : quiet → quiet') : LeadOk row rep quiet' l := by
  cases l with
  | fetched stored version promote => exact ⟨h.1, h.2.1, fun hp => ⟨hs (h.2.2 hp).1, (h.2.2 hp).2⟩⟩
  | reloading left stored promote => exact ⟨h.1, fun hp => ⟨hs (h.2 hp).1, (h.2 hp).2⟩⟩
  | ready => exact ⟨h.1, h.2.1, hs h.2.2.1, h.2.2.2⟩
  | _ => exact h

lemma LeadOk.write (hv : row'.version = row.version + 1) : LeadOk row' rep quiet l := by
  cases l with
  | fetched stored version promote =>
    exact ⟨h.1, by have := h.2.1; omega, fun hp => ⟨(h.2.2 hp).1, (h.2.2 hp).2.stale hv⟩⟩
  | reloading left stored promote => exact ⟨h.1, fun hp => ⟨(h.2 hp).1, (h.2 hp).2.stale hv⟩⟩
  | ready => exact ⟨h.1, h.2.1, h.2.2.1, h.2.2.2.stale hv⟩
  | _ => exact h

lemma LeadOk.grow (hl : ¬ l.Promoting) (hg : Grows rep rep') : LeadOk row rep' quiet' l := by
  cases l with
  | idle => trivial
  | unlocking => trivial
  | fetched stored version promote => exact ⟨hg.standby h.1, h.2.1, fun hp => absurd hp hl⟩
  | reloading left stored promote => exact ⟨hg.standby h.1, fun hp => absurd hp hl⟩
  | ready => exact absurd trivial hl
  | _ => exact hg.standby h

lemma LeadOk.demote (hg : Grows rep rep') (hm : rep'.memory = rep.memory)
    (hv : rep'.versions = rep.versions) (hb : rep'.rollbackFailed = rep.rollbackFailed) :
    LeadOk row rep' quiet l := by
  cases l with
  | idle => trivial
  | unlocking => trivial
  | racing => exact hg.standby h
  | standby => exact hg.standby h
  | locked => exact hg.standby h
  | fetched stored version promote => exact ⟨hg.standby h.1, h.2⟩
  | reloading left stored promote =>
    refine ⟨hg.standby h.1, ?_⟩
    rw [hv, hm]
    exact h.2
  | ready =>
    refine ⟨hg.standby h.1, ?_⟩
    rw [hv, hm, hb]
    exact h.2

end

/-- What is known of a replica: the memory of the writer is not behind the row, if the version it noted is
still the current one. -/
structure ReplicaOk (row : Lib.Versioned (Maps muts loaded)) (rep : Replica muts loaded) (settled : Prop) :
    Prop where
  noted : rep.versions ≤ row.version
  writer : rep.isWriter = true → row.AsOf rep.versions (· ≤ rep.memory)
  rolledBack : rep.rollbackFailed = true → rep.isWriter = false
  leads : LeadOk row rep settled rep.leadership

lemma ReplicaOk.write (h : ReplicaOk row rep quiet) (hv : row'.version = row.version + 1) :
    ReplicaOk row' rep quiet where
  noted := by
    have := h.noted
    omega
  writer hw := (h.writer hw).stale hv
  rolledBack := h.rolledBack
  leads := h.leads.write hv

end GrowlerDB.ControlPlane
