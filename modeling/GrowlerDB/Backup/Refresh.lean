import GrowlerDB.Backup.ShardBackup
import GrowlerDB.Lib.Runs

namespace GrowlerDB.Backup
open Lib Option Function BackupSnapshot

variable {B C : Type}

/-- Where a refresh is. `pass` counts the passes begun, from 0; `retried` is set by the first object that was
missing. -/
inductive RefreshPhase (C : Type)
  | start
  | fetching (manifest : Manifest C) (todo : List FileEntry) (pass : Nat) (retried : Bool)
  /-- all files are there, and the manifest is to be read again -/
  | checking (manifest : Manifest C) (pass : Nat) (retried : Bool)
  /-- an object was missing, and the manifest is to be read again -/
  | rereading (pass : Nat)
  | done (manifest : Manifest C)
  | failed (error : BackupError)

structure Refreshing (B C : Type) where
  backing : Backing B C
  dest : ShardFile → Option B
  phase : RefreshPhase C
  /-- the backup whose manifest the pass goes by -/
  base : Option (BackupSnapshot B C)
  /-- an object that is rewritten in place was uploaded or deleted since the pass began -/
  disturbed : Bool

def maxRefreshRetries : Nat := 3

inductive RefreshEvent (B C : Type)
  | write (e : BackupEvent B C)
  | read

variable {dest : ShardFile → Option B}

namespace Refreshing

def touched (s : Backing B C) : BackupEvent B C → Option ShardFile
  | .put =>
    match s.phase with
    | .uploading _ ((path, _) :: _) => some path
    | _ => none
  | .delete path =>
    match s.phase with
    | .pruning wanted => if path ∈ wanted then none else some path
    | _ => none
  | _ => none

def beginPass (s : Refreshing B C) (pass : Nat) (retried : Bool) : Refreshing B C :=
  match s.backing.store.readManifest with
  | .error e => { s with phase := .failed e }
  | .ok manifest =>
    if pass > maxRefreshRetries then { s with phase := .failed .refreshContention }
    else { s with
      phase := .fetching manifest manifest.files pass retried
      base := s.backing.committed
      disturbed := false }

def pruneLocal (dest : ShardFile → Option B) (files : List FileEntry) : ShardFile → Option B
  | .aux => dest .aux
  | .index name => if .index name ∈ files.map FileEntry.path then dest (.index name) else none

variable (env : Files B)

def present (dest : ShardFile → Option B) (e : FileEntry) : Bool :=
  !e.path.isMutable && (dest e.path).any (fun bytes => env.size bytes == e.len)

section

variable (s : Refreshing B C)

def read : Refreshing B C :=
  match s.phase with
  | .start => s.beginPass 0 false
  | .fetching manifest (e :: todo) pass retried =>
    if present env s.dest e then { s with phase := .fetching manifest todo pass retried }
    else match s.backing.store.data e.path with
      | none =>
        if retried then { s with phase := .failed (.missing e.path) }
        else { s with phase := .rereading pass }
      | some bytes => { s with
          dest := update s.dest e.path (some bytes)
          phase := .fetching manifest todo pass retried }
  | .fetching manifest [] pass retried => { s with
      dest := pruneLocal s.dest manifest.files
      phase := .checking manifest pass retried }
  | .checking manifest pass retried =>
    match s.backing.store.readManifest with
    | .error e => { s with phase := .failed e }
    | .ok current =>
      if current.snapshot = manifest.snapshot then { s with phase := .done manifest }
      else s.beginPass (pass + 1) retried
  | .rereading pass => s.beginPass (pass + 1) true
  | .done _ | .failed _ => s

def step (s : Refreshing B C) : RefreshEvent B C → Refreshing B C
  | .write e => { s with
      backing := s.backing.step env e
      disturbed := s.disturbed || (touched s.backing e).any ShardFile.isMutable }
  | .read => s.read env

def run (events : List (RefreshEvent B C)) : Refreshing B C := events.foldl (step env) s

/-- A read that begins a pass, or would: the manifest it finds is not the one of the pass. -/
def beginsPass : Prop :=
  match s.phase with
  | .start | .rereading _ => True
  | .checking manifest _ _ => ∀ current, s.backing.store.readManifest = .ok current →
      current.snapshot ≠ manifest.snapshot
  | _ => False

/-- A pass begins between backups; and if a file was rewritten during it, the manifest has another snapshot at its
end. -/
def Quiet : RefreshEvent B C → Prop
  | .write _ => True
  | .read => (s.beginsPass → ∀ snap, s.backing.committed = some snap → s.backing.Settled env snap) ∧
      ∀ manifest pass retried, s.phase = .checking manifest pass retried → s.disturbed = true →
        ∀ current, s.backing.store.readManifest = .ok current → current.snapshot ≠ manifest.snapshot

end

variable {env} {s s' : Refreshing B C} {snap : BackupSnapshot B C} {manifest : Manifest C}

lemma data_of_untouched {backing : Backing B C}
    (h : touched backing e ≠ some f) : (backing.step env e).store.data f = backing.store.data f := by
  cases e with
  | begin snap =>
    simp only [Backing.step]
    split <;> rfl
  | put =>
    simp only [Backing.step]
    simp only [touched] at h
    split
    · rename_i hphase
      simp only [hphase] at h
      exact update_of_ne (fun hf => h (congrArg some hf.symm)) _ _
    · rfl
  | commit =>
    simp only [Backing.step]
    split <;> rfl
  | delete path =>
    simp only [Backing.step]
    simp only [touched] at h
    split
    · rename_i hphase
      simp only [hphase] at h
      split_ifs at h ⊢
      · rfl
      · exact update_of_ne (fun hf => h (congrArg some hf.symm)) _ _
    · rfl
  | finish =>
    simp only [Backing.step]
    split <;> rfl
  | crash => rfl

/-- The segment files of the destination are what an earlier refresh put there. -/
def SealedDest (env : Files B) (dest : ShardFile → Option B) : Prop :=
  ∀ name b, dest (.index name) = some b → (ShardFile.index name).isMutable = false → b = env.sealedBytes name

def Fetched (s : Refreshing B C) (f : ShardFile) (b : B) : Prop :=
  f.isMutable = false ∨ s.disturbed = false → s.dest f = some b

/-- The pass goes by the manifest of `snap`, and its objects are still those of `snap`. -/
structure GoesBy (env : Files B) (s : Refreshing B C) (manifest : Manifest C) (snap : BackupSnapshot B C) :
    Prop where
  base : s.base = some snap
  manifest : manifest = snap.manifest env
  data : s.disturbed = false → ∀ f b, f.isMutable = true → snap.content env f = some b →
    s.backing.store.data f = some b

def Copying (env : Files B) (s : Refreshing B C) : Prop :=
  match s.phase with
  | .fetching manifest todo _ _ => ∃ snap, s.GoesBy env manifest snap ∧
      ∀ f b, snap.content env f = some b → f ∈ todo.map FileEntry.path ∨ s.Fetched f b
  | .checking manifest _ _ => ∃ snap, s.GoesBy env manifest snap ∧
      (∀ f b, snap.content env f = some b → s.Fetched f b) ∧
      ∀ f, snap.content env f = none → s.dest f = none
  | .done manifest => ∃ snap, s.base = some snap ∧ manifest = snap.manifest env ∧
      ∀ f, s.dest f = snap.content env f
  | _ => True

lemma mem_paths : f ∈ (snap.manifest env).files.map FileEntry.path ↔ ∃ b, snap.content env f = some b := by
  simp only [manifest, List.map_map, List.mem_map, Function.comp]
  constructor
  · rintro ⟨⟨f, b⟩, he, rfl⟩
    exact ⟨b, mem_files.mp he⟩
  · rintro ⟨b, hb⟩
    exact ⟨(f, b), mem_files.mpr hb, rfl⟩

lemma committed_of_readManifest (h : s.backing.Stored env) (hread : s.backing.store.readManifest = .ok manifest) :
    ∃ snap, s.backing.committed = some snap ∧ manifest = snap.manifest env := by
  unfold ObjectStore.readManifest at hread
  rw [h.manifest] at hread
  cases hc : s.backing.committed with
  | none => simp [hc] at hread
  | some snap =>
    rw [hc] at hread
    simp only [map_some] at hread
    split_ifs at hread
    exact ⟨snap, rfl, (Except.ok.inj hread).symm⟩

lemma copying_failed (error : BackupError) : ({ s with phase := .failed error } : Refreshing B C).Copying env :=
  trivial

lemma copying_beginPass (h : s.backing.Stored env)
    (hsettled : ∀ snap, s.backing.committed = some snap → s.backing.Settled env snap) (pass : Nat) (retried : Bool) :
    (s.beginPass pass retried).Copying env := by
  unfold beginPass
  split
  · exact copying_failed _
  · rename_i manifest hread
    split_ifs
    · exact copying_failed _
    · obtain ⟨snap, hcommitted, rfl⟩ := committed_of_readManifest h hread
      refine ⟨snap, ⟨hcommitted, rfl, fun _ f b hm hb => ?_⟩, fun f b hb => .inl (mem_paths.mpr ⟨b, hb⟩)⟩
      have hdata := h.data snap hcommitted f b hb
      cases hsince : s.backing.since f with
      | none => rwa [hsince] at hdata
      | some b' => rwa [hsince, getD_some, hsettled snap hcommitted f b b' hm hb hsince] at hdata

lemma Copying.write (h : s.Copying env) (e : BackupEvent B C) : (s.step env (.write e)).Copying env := by
  have hcalm : (s.step env (.write e)).disturbed = false →
      s.disturbed = false ∧ ∀ f, f.isMutable → touched s.backing e ≠ some f := by
    intro hd
    simp only [step, Bool.or_eq_false_iff] at hd
    refine ⟨hd.1, fun f hf ht => ?_⟩
    rw [ht, any_some, hf] at hd
    cases hd.2
  have hfetched : ∀ f b, s.Fetched f b → (s.step env (.write e)).Fetched f b := by
    rintro f b hf (hsealed | hd)
    · exact hf (.inl hsealed)
    · exact hf (.inr (hcalm hd).1)
  have hgoesBy : ∀ manifest snap, s.GoesBy env manifest snap →
      (s.step env (.write e)).GoesBy env manifest snap := by
    intro manifest snap hg
    refine ⟨hg.base, hg.manifest, fun hd f b hm hb => ?_⟩
    obtain ⟨hd', huntouched⟩ := hcalm hd
    exact (data_of_untouched (huntouched f hm)).trans (hg.data hd' f b hm hb)
  have hphase : (s.step env (.write e)).phase = s.phase := rfl
  unfold Copying at h ⊢
  rw [hphase]
  cases hp : s.phase with
  | fetching manifest todo pass retried =>
    rw [hp] at h
    obtain ⟨snap, hg, hall⟩ := h
    exact ⟨snap, hgoesBy _ snap hg, fun f b hb => (hall f b hb).imp_right (hfetched f b)⟩
  | checking manifest pass retried =>
    rw [hp] at h
    obtain ⟨snap, hg, hall, hnone⟩ := h
    exact ⟨snap, hgoesBy _ snap hg, fun f b hb => hfetched f b (hall f b hb), hnone⟩
  | done manifest => rwa [hp] at h
  | start | rereading _ | failed _ => trivial

lemma fetched_of_fetch (hstored : s.backing.Stored env) (hsealed : SealedDest env s.dest) {e : FileEntry}
    {todo : List FileEntry} (hg : s.GoesBy env manifest snap)
    (hall : ∀ f b, snap.content env f = some b → f ∈ (e :: todo).map FileEntry.path ∨ s.Fetched f b)
    (hdest : dest = s.dest ∧ present env s.dest e ∨
      ∃ bytes, s.backing.store.data e.path = some bytes ∧ dest = Function.update s.dest e.path (some bytes)) :
    ∀ f b, snap.content env f = some b → f ∈ todo.map FileEntry.path ∨
      (f.isMutable = false ∨ s.disturbed = false → dest f = some b) := by
  intro f b hb
  have hother : f ≠ e.path → dest f = s.dest f := by
    intro hne
    rcases hdest with ⟨rfl, -⟩ | ⟨bytes, -, rfl⟩
    · rfl
    · exact Function.update_of_ne hne _ _
  by_cases hf : f = e.path
  · refine .inr (fun hfetch => ?_)
    subst hf
    rcases hdest with ⟨rfl, hpresent⟩ | ⟨bytes, hbytes, rfl⟩
    · -- the same size, so the same file: it is a segment
      simp only [present, Bool.and_eq_true, Bool.not_eq_true', Option.any_eq_true] at hpresent
      obtain ⟨himmutable, bytes, hbytes, -⟩ := hpresent
      cases hpath : e.path with
      | aux =>
        rw [hpath] at himmutable
        cases himmutable
      | index name =>
        rw [hpath] at himmutable hbytes hb
        rw [hbytes, hsealed name bytes hbytes himmutable, content_sealed hb himmutable]
    · rw [Function.update_self]
      cases hm : e.path.isMutable with
      | true =>
        have hd : s.disturbed = false := hfetch.resolve_left (by rw [hm]; exact nofun)
        rw [← hbytes]
        exact hg.data hd e.path b hm hb
      | false =>
        cases hpath : e.path with
        | aux =>
          rw [hpath] at hm
          cases hm
        | index name =>
          rw [hpath] at hm hb hbytes
          rw [hstored.sealedData name bytes hbytes hm, content_sealed hb hm]
  · rcases hall f b hb with hin | hfetched
    · rw [List.map_cons, List.mem_cons] at hin
      exact .inl (hin.resolve_left hf)
    · refine .inr (fun hfetch => ?_)
      rw [hother hf]
      exact hfetched hfetch

lemma SealedDest.fetch (hstored : s.backing.Stored env) (hsealed : SealedDest env s.dest)
    {bytes : B} (hbytes : s.backing.store.data path = some bytes) :
    SealedDest env (update s.dest path (some bytes)) := by
  intro name b hb himmutable
  rw [update_apply] at hb
  split_ifs at hb with hp
  · rw [← some.inj hb]
    exact hstored.sealedData name bytes (hp ▸ hbytes) himmutable
  · exact hsealed name b hb himmutable

lemma SealedDest.pruneLocal (h : SealedDest env dest) (files : List FileEntry) :
    SealedDest env (Refreshing.pruneLocal dest files) := by
  intro name b hb himmutable
  simp only [Refreshing.pruneLocal] at hb
  split_ifs at hb
  exact h name b hb himmutable

lemma pruneLocal_spec (f : ShardFile) :
    (∀ b, snap.content env f = some b → pruneLocal dest (snap.manifest env).files f = dest f) ∧
      (snap.content env f = none → pruneLocal dest (snap.manifest env).files f = none) := by
  cases f with
  | aux => exact ⟨fun _ _ => rfl, nofun⟩
  | index name =>
    simp only [pruneLocal]
    refine ⟨fun b hb => if_pos (mem_paths.mpr ⟨b, hb⟩), fun hnone => if_neg (fun hin => ?_)⟩
    obtain ⟨b, hb⟩ := mem_paths.mp hin
    simp [hnone] at hb

structure Sound (env : Files B) (s : Refreshing B C) : Prop where
  stored : s.backing.Stored env
  sealedDest : SealedDest env s.dest
  copying : s.Copying env

lemma Sound.beginPass (h : s.Sound env)
    (hsettled : ∀ snap, s.backing.committed = some snap → s.backing.Settled env snap) (pass : Nat) (retried : Bool) :
    (s.beginPass pass retried).Sound env := by
  have hcopying := copying_beginPass h.stored hsettled pass retried
  unfold Refreshing.beginPass at hcopying ⊢
  split at hcopying
  · exact ⟨h.stored, h.sealedDest, hcopying⟩
  · split_ifs at hcopying ⊢ <;> exact ⟨h.stored, h.sealedDest, hcopying⟩

lemma Sound.read (h : s.Sound env) (hquiet : s.Quiet env .read) : (s.read env).Sound env := by
  have hcopying := h.copying
  unfold Copying at hcopying
  unfold Refreshing.read
  split
  · rename_i hphase
    exact h.beginPass (hquiet.1 (by simp [beginsPass, hphase])) 0 false
  · rename_i manifest e todo pass retried hphase
    rw [hphase] at hcopying
    obtain ⟨snap, hg, hall⟩ := hcopying
    by_cases hpresent : present env s.dest e
    · rw [if_pos hpresent]
      exact ⟨h.stored, h.sealedDest, snap, ⟨hg.base, hg.manifest, hg.data⟩,
        fetched_of_fetch h.stored h.sealedDest hg hall (.inl ⟨rfl, hpresent⟩)⟩
    · rw [if_neg hpresent]
      split
      · split_ifs <;> exact ⟨h.stored, h.sealedDest, trivial⟩
      · rename_i bytes hbytes
        exact ⟨h.stored, h.sealedDest.fetch h.stored hbytes, snap, ⟨hg.base, hg.manifest, hg.data⟩,
          fetched_of_fetch h.stored h.sealedDest hg hall (.inr ⟨bytes, hbytes, rfl⟩)⟩
  · rename_i manifest pass retried hphase
    rw [hphase] at hcopying
    obtain ⟨snap, hg, hall⟩ := hcopying
    obtain rfl := hg.manifest
    refine ⟨h.stored, h.sealedDest.pruneLocal _, snap, ⟨hg.base, rfl, hg.data⟩, ?_, fun f => (pruneLocal_spec f).2⟩
    intro f b hb hfetch
    rcases hall f b hb with hin | hfetched
    · cases hin
    · exact ((pruneLocal_spec f).1 b hb).trans (hfetched hfetch)
  · rename_i manifest pass retried hphase
    rw [hphase] at hcopying
    obtain ⟨snap, hg, hall, hnone⟩ := hcopying
    split
    · exact ⟨h.stored, h.sealedDest, trivial⟩
    · rename_i current hcurrent
      split_ifs with hsame
      · -- the same snapshot: nothing disturbed the pass
        have hcalm : s.disturbed = false := by
          by_contra hd
          exact hquiet.2 manifest pass retried hphase (by simpa using hd) current hcurrent hsame
        refine ⟨h.stored, h.sealedDest, snap, hg.base, hg.manifest, fun f => ?_⟩
        cases hcontent : snap.content env f with
        | none => exact hnone f hcontent
        | some b => exact hall f b hcontent (.inr hcalm)
      · refine h.beginPass (hquiet.1 ?_) (pass + 1) retried
        simp only [beginsPass, hphase]
        intro current' hcurrent'
        rw [hcurrent] at hcurrent'
        rwa [← Except.ok.inj hcurrent']
  · rename_i pass hphase
    exact h.beginPass (hquiet.1 (by simp [beginsPass, hphase])) (pass + 1) true
  · exact h
  · exact h

lemma Sound.step (h : s.Sound env) (hquiet : s.Quiet env e) : (s.step env e).Sound env := by
  cases e with
  | write e => exact ⟨h.stored.step e, h.sealedDest, h.copying.write e⟩
  | read => exact h.read hquiet

/-- In every quiet run, a refresh that ends well has copied the files of one backup, and no others. -/
theorem refresh_copies_one_backup (hbacking : Backing.Reached env s.backing) (hstart : s.phase = .start)
    (hdest : SealedDest env s.dest) (hrun : Runs (step env) (Quiet env) s s') (hdone : s'.phase = .done manifest) :
    ∃ snap, s'.base = some snap ∧ manifest = snap.manifest env ∧ ∀ f, s'.dest f = snap.content env f := by
  have hsound : s'.Sound env := hrun.invariant
    ⟨hbacking.stored, hdest, by simp [Copying, hstart]⟩ (fun _ _ hquiet h => h.step hquiet)
  have hcopying := hsound.copying
  unfold Copying at hcopying
  rwa [hdone] at hcopying

lemma read_backing : (s.read env).backing = s.backing := by
  unfold read beginPass
  grind

def RefreshPhase.manifest? : RefreshPhase C → Option (Manifest C)
  | .fetching manifest _ _ _ | .checking manifest _ _ => some manifest
  | _ => none

/-- The store has the manifest of another snapshot than the pass goes by, if a file was rewritten during the pass. -/
def Overtaken (s : Refreshing B C) : Prop :=
  s.disturbed = true → ∀ manifest current, RefreshPhase.manifest? s.phase = some manifest →
    s.backing.store.readManifest = .ok current → current.snapshot ≠ manifest.snapshot

lemma Overtaken.read (h : s.Overtaken) : (s.read env).Overtaken := by
  unfold Overtaken
  rw [read_backing]
  unfold Refreshing.read beginPass
  unfold Overtaken RefreshPhase.manifest? at *
  grind

lemma quiet_reads (hsettled : s.backing.since = fun _ => none) (h : s.Overtaken) (n : Nat) :
    AllAllowed (step env) (Quiet env) s (List.replicate n .read) := by
  induction n generalizing s with
  | zero => trivial
  | succ n ih =>
    have hquiet : s.Quiet env .read := by
      refine ⟨fun _ snap _ f b b' _ _ hsince => ?_, fun manifest pass retried hphase hd current => ?_⟩
      · rw [hsettled] at hsince
        cases hsince
      · exact h hd manifest current (by rw [hphase]; rfl)
    have hnext : (s.read env).backing.since = fun _ => none := by rw [read_backing, hsettled]
    exact ⟨hquiet, ih hnext h.read⟩

namespace Replica

open Backing.TwoBackups

def compacted : BackupSnapshot Nat Nat := ⟨1, some 10, ["m1.store"], 3, none, 1, by decide⟩

def start : Refreshing Nat Nat :=
  ⟨(Backing.empty : Backing Nat Nat).run bytes [.begin first, .put, .put, .put, .commit], fun _ => none, .start,
    none, false⟩

def reads (n : Nat) : List (RefreshEvent Nat Nat) := List.replicate n .read

def writes (events : List (BackupEvent Nat Nat)) : List (RefreshEvent Nat Nat) := events.map .write

def backup : List (RefreshEvent Nat Nat) := writes [.begin second, .put, .put, .put, .put, .commit]

def unfinished : List (RefreshEvent Nat Nat) := reads 2 ++ writes [.begin second, .put, .put, .put] ++ reads 4

def sameSnapshot : List (RefreshEvent Nat Nat) :=
  reads 2 ++ writes [.begin compacted, .put, .put, .put, .commit] ++ reads 4

lemma reached : Backing.Reached bytes start.backing := Backing.Reached.start.run _

end Replica

open Backing.TwoBackups

/-- The second backup lands while the first is copied, and the next pass copies it. -/
theorem refresh_copies_overtaken :
    let s := Replica.start.run bytes (Replica.reads 2 ++ Replica.backup ++ Replica.reads 10)
    s.phase = .done (second.manifest bytes) ∧ s.base = some second ∧ ∀ f, s.dest f = second.content bytes f := by
  intro s
  have hdone : s.phase = .done (second.manifest bytes) := rfl
  have hfirst := Runs.foldl (.start : Runs (step bytes) (Quiet bytes) Replica.start _) (Replica.reads 2)
    (quiet_reads rfl (fun hd => by cases hd) 2)
  have hbackup := hfirst.foldl Replica.backup ⟨trivial, trivial, trivial, trivial, trivial, trivial, trivial⟩
  have hrun : Runs (step bytes) (Quiet bytes) Replica.start s :=
    hbackup.foldl (Replica.reads 10) (quiet_reads rfl (fun _ manifest current hm hread => by
      cases hm
      cases hread
      decide) 10)
  obtain ⟨snap, hbase, -, hdest⟩ := refresh_copies_one_backup Replica.reached rfl (fun _ _ hb => nomatch hb) hrun hdone
  cases hbase
  exact ⟨hdone, rfl, hdest⟩

/-- The refresh ends well with one backup's segment and the `meta.json` of another, uncommitted or of the same
snapshot. -/
theorem refresh_tears :
    (Replica.start.run bytes Replica.unfinished).phase = .done (first.manifest bytes) ∧
      (Replica.start.run bytes Replica.unfinished).dest (.index "s2.store") = none ∧
      (Replica.start.run bytes Replica.unfinished).dest (.index "meta.json") = some second.metaJson ∧
      (Replica.start.run bytes Replica.sameSnapshot).phase = .done (first.manifest bytes) ∧
      (Replica.start.run bytes Replica.sameSnapshot).dest (.index "m1.store") = none ∧
      (Replica.start.run bytes Replica.sameSnapshot).dest (.index "meta.json") = some Replica.compacted.metaJson ∧
      first.metaJson ≠ second.metaJson ∧
      first.metaJson ≠ Replica.compacted.metaJson :=
  ⟨rfl, rfl, rfl, rfl, rfl, rfl, by decide, by decide⟩

end Refreshing

end GrowlerDB.Backup
