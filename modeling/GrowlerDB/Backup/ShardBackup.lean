import GrowlerDB.Lib.Results
import Mathlib.Logic.Function.Basic

namespace GrowlerDB.Backup
open Lib Option

inductive ShardFile
  | index (name : String)
  | aux
  deriving DecidableEq

def ShardFile.isMutable : ShardFile → Bool
  | .index name => name == "meta.json" || name == ".managed.json"
  | .aux => true

variable {B C : Type}

/-- What the shard hands out under its writer lock. The bytes of a segment file follow from its name. -/
structure BackupSnapshot (B C : Type) where
  snapshot : Nat
  checkpoint : Option C
  segments : List String
  metaJson : B
  managedJson : Option B
  aux : B
  sealedNames : ∀ name ∈ segments, (ShardFile.index name).isMutable = false

structure FileEntry where
  path : ShardFile
  len : Nat

structure Manifest (C : Type) where
  format : Nat
  snapshot : Nat
  checkpoint : Option C
  files : List FileEntry
  bundled : Bool

def manifestFormat : Nat := 1

inductive BackupError
  | missing (path : ShardFile)
  | notFound
  | bundled
  | unsupportedFormat (found supported : Nat)
  | refreshContention

/-- The bytes of the segment files, and how long bytes are. -/
structure Files (B : Type) where
  sealedBytes : String → B
  size : B → Nat

namespace BackupSnapshot

variable (env : Files B) (snap : BackupSnapshot B C)

def files : List (ShardFile × B) :=
  snap.segments.map (fun name => (.index name, env.sealedBytes name)) ++
    [(.index "meta.json", snap.metaJson)] ++
    snap.managedJson.toList.map (fun bytes => (.index ".managed.json", bytes)) ++ [(.aux, snap.aux)]

def content : ShardFile → Option B
  | .aux => some snap.aux
  | .index name =>
    if name = "meta.json" then some snap.metaJson
    else if name = ".managed.json" then snap.managedJson
    else if name ∈ snap.segments then some (env.sealedBytes name) else none

def manifest : Manifest C :=
  ⟨manifestFormat, snap.snapshot, snap.checkpoint,
    (snap.files env).map (fun e => ⟨e.1, env.size e.2⟩), false⟩

variable {env snap}

lemma ne_of_segment (h : name ∈ snap.segments) : name ≠ "meta.json" ∧ name ≠ ".managed.json" := by
  have hsealed := snap.sealedNames name h
  simpa [ShardFile.isMutable] using hsealed

lemma mem_files : (f, b) ∈ snap.files env ↔ snap.content env f = some b := by
  cases f with
  | aux => simp [files, content, eq_comm]
  | index name =>
    have hmem : (ShardFile.index name, b) ∈ snap.files env ↔
        (name ∈ snap.segments ∧ env.sealedBytes name = b) ∨ (name = "meta.json" ∧ b = snap.metaJson) ∨
          (name = ".managed.json" ∧ snap.managedJson = some b) := by
      simp only [files, List.mem_append, List.mem_map, List.mem_singleton, Prod.mk.injEq,
        ShardFile.index.injEq, reduceCtorEq, false_and, or_false, mem_toList,
        exists_eq_right_right]
      constructor
      · rintro ((⟨n, hn, rfl, rfl⟩ | ⟨rfl, rfl⟩) | ⟨hm, rfl⟩)
        · exact .inl ⟨hn, rfl⟩
        · exact .inr (.inl ⟨rfl, rfl⟩)
        · exact .inr (.inr ⟨rfl, hm⟩)
      · rintro (⟨hn, rfl⟩ | ⟨rfl, rfl⟩ | ⟨rfl, hm⟩)
        · exact .inl (.inl ⟨name, hn, rfl, rfl⟩)
        · exact .inl (.inr ⟨rfl, rfl⟩)
        · exact .inr ⟨hm, rfl⟩
    rw [hmem]
    simp only [content]
    split_ifs with hmeta hmanaged hseg
    · subst hmeta
      have hout : "meta.json" ∉ snap.segments := fun hs => (ne_of_segment hs).1 rfl
      simp [hout, eq_comm]
    · subst hmanaged
      have hout : ".managed.json" ∉ snap.segments := fun hs => (ne_of_segment hs).2 rfl
      simp [hout]
    · simp [hmeta, hmanaged, hseg]
    · simp [hmeta, hmanaged, hseg]

lemma content_sealed (h : snap.content env (.index name) = some b)
    (hsealed : (ShardFile.index name).isMutable = false) : b = env.sealedBytes name := by
  have hne : name ≠ "meta.json" ∧ name ≠ ".managed.json" := by simpa [ShardFile.isMutable] using hsealed
  simp only [content, hne.1, hne.2, if_false] at h
  split_ifs at h
  exact (some.inj h).symm

end BackupSnapshot

structure ObjectStore (B C : Type) where
  data : ShardFile → Option B
  manifest : Option (Manifest C)

namespace ObjectStore

variable (store : ObjectStore B C)

def readManifest : Except BackupError (Manifest C) :=
  match store.manifest with
  | none => .error .notFound
  | some manifest =>
    if manifest.format > manifestFormat then .error (.unsupportedFormat manifest.format manifestFormat)
    else .ok manifest

def read (path : ShardFile) : Except BackupError B :=
  match store.data path with
  | none => .error (.missing path)
  | some bytes => .ok bytes

def restore : Except BackupError (List (ShardFile × B) × Manifest C) :=
  match store.readManifest with
  | .error e => .error e
  | .ok manifest =>
    if manifest.bundled then .error .bundled
    else (manifest.files.mapM (fun e => (store.read e.path).map (fun bytes => (e.path, bytes)))).map
      (fun files => (files, manifest))

end ObjectStore

inductive BackupPhase (B C : Type)
  | idle
  | uploading (snap : BackupSnapshot B C) (todo : List (ShardFile × B))
  /-- objects outside `wanted` are deleted -/
  | pruning (wanted : List ShardFile)

structure Backing (B C : Type) where
  store : ObjectStore B C
  phase : BackupPhase B C
  /-- the backup whose manifest is committed -/
  committed : Option (BackupSnapshot B C)
  /-- what was uploaded since that commit -/
  since : ShardFile → Option B

inductive BackupEvent (B C : Type)
  /-- the snapshot is taken; commits and compactions since the last one are in it -/
  | begin (snap : BackupSnapshot B C)
  | put
  | commit
  | delete (path : ShardFile)
  | finish
  | crash

namespace Backing

variable (env : Files B)

def step (s : Backing B C) : BackupEvent B C → Backing B C
  | .begin snap =>
    match s.phase with
    | .idle => { s with phase := .uploading snap (snap.files env) }
    | _ => s
  | .put =>
    match s.phase with
    | .uploading snap ((path, bytes) :: todo) => { s with
        store := { s.store with data := Function.update s.store.data path (some bytes) }
        since := Function.update s.since path (some bytes)
        phase := .uploading snap todo }
    | _ => s
  | .commit =>
    match s.phase with
    | .uploading snap [] =>
      let manifest := snap.manifest env
      { store := { s.store with manifest := some manifest }
        committed := some snap
        since := fun _ => none
        -- a backup of the same snapshot leaves what it replaced
        phase := match s.store.readManifest with
          | .error _ => .idle
          | .ok previous =>
            if manifest.snapshot > previous.snapshot then
              .pruning (manifest.files.map FileEntry.path ++ previous.files.map FileEntry.path)
            else .idle }
    | _ => s
  | .delete path =>
    match s.phase with
    | .pruning wanted =>
      if path ∈ wanted then s
      else { s with store := { s.store with data := Function.update s.store.data path none } }
    | _ => s
  | .finish =>
    match s.phase with
    | .pruning _ => { s with phase := .idle }
    | _ => s
  | .crash => { s with phase := .idle }

def empty : Backing B C := ⟨⟨fun _ => none, none⟩, .idle, none, fun _ => none⟩

def run (s : Backing B C) (events : List (BackupEvent B C)) : Backing B C := events.foldl (step env) s

inductive Reached : Backing B C → Prop
  | start : Reached empty
  | step (h : Reached s) (e : BackupEvent B C) : Reached (s.step env e)

lemma Reached.run {env : Files B} (h : Reached env s) (events : List (BackupEvent B C)) :
    Reached env (s.run env events) := by
  induction events generalizing s with
  | nil => exact h
  | cons e events ih => exact ih (h.step e)

open List Function BackupSnapshot

variable {env} {s : Backing B C} {snap : BackupSnapshot B C}

structure Stored (env : Files B) (s : Backing B C) : Prop where
  sealedData : ∀ name b, s.store.data (.index name) = some b →
    (ShardFile.index name).isMutable = false → b = env.sealedBytes name
  sealedSince : ∀ name b, s.since (.index name) = some b →
    (ShardFile.index name).isMutable = false → b = env.sealedBytes name
  manifest : s.store.manifest = s.committed.map (fun snap => snap.manifest env)
  data : ∀ snap, s.committed = some snap → ∀ f b, snap.content env f = some b →
    s.store.data f = some ((s.since f).getD b)
  upload : ∀ snap todo, s.phase = .uploading snap todo →
    (∀ e ∈ todo, snap.content env e.1 = some e.2) ∧
      ∀ f b, snap.content env f = some b → (f, b) ∈ todo ∨ s.store.data f = some b
  wanted : ∀ wanted, s.phase = .pruning wanted → ∀ snap, s.committed = some snap →
    ∀ f b, snap.content env f = some b → f ∈ wanted

lemma stored_empty : (empty : Backing B C).Stored env :=
  ⟨nofun, nofun, rfl, nofun, nofun, nofun⟩

namespace Stored

variable (h : s.Stored env)
include h

lemma begin (snap : BackupSnapshot B C) : (s.step env (.begin snap)).Stored env := by
  simp only [step]
  split
  · refine ⟨h.sealedData, h.sealedSince, h.manifest, h.data, ?_, nofun⟩
    intro snap' todo hphase
    obtain ⟨rfl, rfl⟩ := BackupPhase.uploading.inj hphase
    exact ⟨fun e he => mem_files.mp he, fun f b hb => .inl (mem_files.mpr hb)⟩
  · exact h

lemma put : (s.step env .put).Stored env := by
  simp only [step]
  split
  · rename_i snap path bytes todo hphase
    obtain ⟨htodo, hdone⟩ := h.upload snap _ hphase
    have hbytes : snap.content env path = some bytes := htodo (path, bytes) mem_cons_self
    -- a segment file is uploaded with its sealed bytes again
    have hsealed : ∀ name, path = .index name → (ShardFile.index name).isMutable = false →
        bytes = env.sealedBytes name := by
      rintro name rfl hs
      exact content_sealed hbytes hs
    refine ⟨?_, ?_, h.manifest, ?_, ?_, nofun⟩
    · intro name b hb hs
      simp only [update_apply] at hb
      split_ifs at hb with hp
      · rw [← some.inj hb]
        exact hsealed name hp.symm hs
      · exact h.sealedData name b hb hs
    · intro name b hb hs
      simp only [update_apply] at hb
      split_ifs at hb with hp
      · rw [← some.inj hb]
        exact hsealed name hp.symm hs
      · exact h.sealedSince name b hb hs
    · intro snap' hcommitted f b hb
      simp only [update_apply]
      split_ifs
      · rfl
      · exact h.data snap' hcommitted f b hb
    · intro snap' todo' hphase'
      obtain ⟨rfl, rfl⟩ := BackupPhase.uploading.inj hphase'
      refine ⟨fun e he => htodo e (mem_cons_of_mem _ he), fun f b hb => ?_⟩
      simp only [update_apply]
      split_ifs with hp
      · subst hp
        rw [hb] at hbytes
        exact .inr hbytes.symm
      · rcases hdone f b hb with hin | hdata
        · rcases mem_cons.mp hin with heq | hin
          · exact absurd (congrArg Prod.fst heq) hp
          · exact .inl hin
        · exact .inr hdata
  · exact h

lemma commit : (s.step env .commit).Stored env := by
  simp only [step]
  split
  · rename_i snap hphase
    obtain ⟨-, hdone⟩ := h.upload snap _ hphase
    refine ⟨h.sealedData, nofun, rfl, ?_, ?_, ?_⟩
    · intro snap' hcommitted f b hb
      cases hcommitted
      rcases hdone f b hb with hin | hdata
      · cases hin
      · exact hdata
    · intro snap' todo hphase'
      dsimp only at hphase'
      split at hphase'
      · cases hphase'
      · split_ifs at hphase'
    · intro wanted hphase' snap' hcommitted f b hb
      cases hcommitted
      dsimp only at hphase'
      split at hphase'
      · cases hphase'
      · split_ifs at hphase'
        obtain rfl := BackupPhase.pruning.inj hphase'
        refine mem_append_left _ (mem_map.mpr ⟨⟨f, env.size b⟩, ?_, rfl⟩)
        exact mem_map.mpr ⟨(f, b), mem_files.mpr hb, rfl⟩
  · exact h

lemma delete (path : ShardFile) : (s.step env (.delete path)).Stored env := by
  simp only [step]
  split
  · rename_i wanted hphase
    split_ifs with hin
    · exact h
    · refine ⟨?_, h.sealedSince, h.manifest, ?_, ?_, h.wanted⟩
      · intro name b hb hs
        simp only [update_apply] at hb
        split_ifs at hb
        exact h.sealedData name b hb hs
      · intro snap hcommitted f b hb
        simp only [update_apply]
        split_ifs with hf
        · subst hf
          exact absurd (h.wanted wanted hphase snap hcommitted f b hb) hin
        · exact h.data snap hcommitted f b hb
      · intro snap todo hphase'
        rw [hphase] at hphase'
        cases hphase'
  · exact h

lemma stop : ({ s with phase := .idle } : Backing B C).Stored env :=
  ⟨h.sealedData, h.sealedSince, h.manifest, h.data, nofun, nofun⟩

lemma step (e : BackupEvent B C) : (s.step env e).Stored env := by
  cases e with
  | begin snap => exact h.begin snap
  | put => exact h.put
  | commit => exact h.commit
  | delete path => exact h.delete path
  | finish =>
    simp only [Backing.step]
    split
    · exact h.stop
    · exact h
  | crash => exact h.stop

end Stored

lemma Reached.stored (h : Reached env s) : s.Stored env := by
  induction h with
  | start => exact stored_empty
  | step _ e ih => exact ih.step e

/-- No file that is rewritten in place was uploaded with other bytes since the commit. -/
def Settled (env : Files B) (s : Backing B C) (snap : BackupSnapshot B C) : Prop :=
  ∀ f b b', f.isMutable = true → snap.content env f = some b → s.since f = some b' → b' = b

lemma restore_eq (h : s.Stored env) (hcommitted : s.committed = some snap) :
    s.store.restore = .ok ((snap.files env).map (fun e => (e.1, (s.since e.1).getD e.2)), snap.manifest env) := by
  have hmanifest : s.store.readManifest = .ok (snap.manifest env) := by
    simp [ObjectStore.readManifest, h.manifest, hcommitted, manifest, manifestFormat]
  have hreads : (snap.manifest env).files.mapM
      (fun e => (s.store.read e.path).map (fun bytes => (e.path, bytes))) =
      .ok ((snap.files env).map (fun e => (e.1, (s.since e.1).getD e.2))) := by
    rw [manifest, List.mapM_map]
    refine mapM_eq_ok (fun e he => ?_)
    have hdata := h.data snap hcommitted e.1 e.2 (mem_files.mp he)
    simp [ObjectStore.read, hdata, Except.map]
  rw [ObjectStore.restore, hmanifest]
  simp only [manifest, Bool.false_eq_true, if_false]
  simp only [manifest] at hreads
  rw [hreads]
  rfl

/-- A restore yields the files of the committed backup exactly if nothing rewritten in place has other bytes since. -/
theorem restore_exact_iff (h : Reached env s) (hcommitted : s.committed = some snap) :
    s.store.restore = .ok (snap.files env, snap.manifest env) ↔ s.Settled env snap := by
  rw [restore_eq h.stored hcommitted, Except.ok.injEq, Prod.mk.injEq, and_iff_left rfl]
  have hpointwise : (snap.files env).map (fun e => (e.1, (s.since e.1).getD e.2)) = snap.files env ↔
      ∀ e ∈ snap.files env, (s.since e.1).getD e.2 = e.2 := by
    nth_rewrite 2 [← map_id (snap.files env)]
    rw [map_inj_left]
    exact forall₂_congr (fun e _ => by simp [Prod.ext_iff])
  rw [hpointwise]
  constructor
  · intro hall f b b' _ hb hsince
    have hsame := hall (f, b) (BackupSnapshot.mem_files.mpr hb)
    rwa [hsince] at hsame
  · rintro hsettled ⟨f, b⟩ he
    have hb := BackupSnapshot.mem_files.mp he
    cases hsince : s.since f with
    | none => rfl
    | some b' =>
      rw [Option.getD_some]
      cases hmutable : f.isMutable with
      | true => exact hsettled f b b' hmutable hb hsince
      | false =>
        cases f with
        | aux => cases hmutable
        | index name => rw [h.stored.sealedSince name b' hsince hmutable, BackupSnapshot.content_sealed hb hmutable]

namespace TwoBackups

def bytes : Files Nat := ⟨String.length, id⟩

def first : BackupSnapshot Nat Nat := ⟨1, some 10, ["s1.store"], 1, none, 1, by decide⟩

def second : BackupSnapshot Nat Nat := ⟨2, some 20, ["s1.store", "s2.store"], 2, none, 2, by decide⟩

def segmentsOnly : List (BackupEvent Nat Nat) :=
  [.begin first, .put, .put, .put, .commit, .begin second, .put, .put]

def torn : List (BackupEvent Nat Nat) := segmentsOnly ++ [.put, .crash]

end TwoBackups

open TwoBackups

theorem restore_before_meta : ((empty : Backing Nat Nat).run bytes segmentsOnly).store.restore =
    .ok (first.files bytes, first.manifest bytes) :=
  (restore_exact_iff (Reached.start.run segmentsOnly) rfl).mpr (by
    rintro (_ | name) b b' hmutable - hsince
    · rename_i name
      have hname : name = "meta.json" ∨ name = ".managed.json" := by simpa [ShardFile.isMutable] using hmutable
      rcases hname with rfl | rfl <;> cases hsince
    · cases hsince)

/-- The restore succeeds with the first backup's manifest, segment and `aux.redb` and the second one's `meta.json`. -/
theorem restore_torn :
    ((empty : Backing Nat Nat).run bytes torn).committed = some first ∧
      ((empty : Backing Nat Nat).run bytes torn).store.restore =
        .ok ([(.index "s1.store", 8), (.index "meta.json", second.metaJson),
          (.aux, first.aux)], first.manifest bytes) ∧
      second.metaJson ≠ first.metaJson :=
  ⟨rfl, rfl, by decide⟩

end Backing

end GrowlerDB.Backup
