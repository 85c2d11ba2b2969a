import GrowlerDB.Lib.Script

namespace GrowlerDB.Index
open Lib Script Option

/-- The directory a shard is served from and its siblings `reindex` and `old`. -/
inductive Place
  | canonical
  | staging
  | backup

/-- A shard's directories, each with the files it holds, and whether the `commit` marker exists. -/
structure ShardDirs (F : Type) where
  canonical : Option (List F)
  staging : Option (List F)
  backup : Option (List F)
  marker : Bool

variable {F : Type}

namespace ShardDirs

def get (d : ShardDirs F) : Place → Option (List F)
  | .canonical => d.canonical
  | .staging => d.staging
  | .backup => d.backup

variable (d : ShardDirs F) (p : Place)

def set (files : Option (List F)) : ShardDirs F :=
  match p with
  | .canonical => { d with canonical := files }
  | .staging => { d with staging := files }
  | .backup => { d with backup := files }

def serving (files : Option (List F)) : ShardDirs F := ⟨files, none, none, false⟩

@[simp] lemma set_get : d.set p (d.get p) = d := by
  cases p <;> rfl

@[simp] lemma set_set (a b : Option (List F)) :
    (d.set p a).set p b = d.set p b := by
  cases p <;> rfl

end ShardDirs

inductive FsEffect (F : Type)
  | write (p : Place) (files : List F)
  | removeDir (p : Place)
  | rename (p q : Place)
  | writeMarker
  | removeMarker

def ShardDirs.exec (d : ShardDirs F) : FsEffect F → ShardDirs F
  | .write p files => d.set p (some files)
  | .removeDir p => d.set p none
  | .rename p q => (d.set q (d.get p)).set p none
  | .writeMarker => { d with marker := true }
  | .removeMarker => { d with marker := false }

instance : Effects (ShardDirs F) (FsEffect F) := ⟨ShardDirs.exec⟩

inductive ReindexError
  | notFound
  | directoryNotEmpty
  | removal
  | build
  | reopen

abbrev DirScript (F : Type) := Script (ShardDirs F) (FsEffect F) ReindexError

/-- How one removal goes: what is left of the directory as its files are unlinked, and whether the
removal gets to the directory itself. -/
structure Removal (F : Type) where
  left : List (List F)
  finishes : Bool

def removeDirAll (p : Place) (r : Removal F) : DirScript F Unit :=
  look >>= fun d =>
    if (d.get p).isSome then
      perform (r.left.map (.write p)) >>= fun _ => if r.finishes then perform [.removeDir p] else fail .removal
    else fail .notFound

def rename (p q : Place) : DirScript F Unit :=
  look >>= fun d =>
    match d.get p, d.get q with
    | none, _ => fail .notFound
    | some _, some (_ :: _) => fail .directoryNotEmpty
    | some _, _ => perform [.rename p q]

def clear (p : Place) (r : Removal F) : DirScript F Unit :=
  onlyIf (fun d => (d.get p).isSome) (removeDirAll p r)

/-- One run of `build_shard` and `populate`: what the staging directory holds on the way, and the
files of the generation unless they fail. -/
structure Build (F : Type) where
  grows : List (List F)
  result : Except ReindexError (List F)

def Build.fill (b : Build F) : DirScript F Unit :=
  perform (b.grows.map (.write .staging)) >>= fun _ =>
    match b.result with
    | .ok files => perform [.write .staging files]
    | .error e => fail e

def buildStagingGeneration (clears : Removal F) (b : Build F) : DirScript F Unit := do
  clear .staging clears
  onlyIf (·.marker) (perform [.removeMarker])
  b.fill

structure Promotion (F : Type) where
  reopens : Bool
  retires : Removal F
  unmarks : Bool

def Promotion.swap (p : Promotion F) : DirScript F Unit := do
  rename .canonical .backup
  rename .staging .canonical
  onlyIf (fun _ => !p.reopens) (fail .reopen)
  attempt (removeDirAll .backup p.retires)
  onlyIf (fun _ => p.unmarks) (perform [.removeMarker])

def promoteGeneration (p : Promotion F) : DirScript F Unit := do
  perform [.writeMarker]
  p.swap

def discardStaging (clears : Removal F) : DirScript F Unit := clear .staging clears

structure Recovery (F : Type) where
  replaced : Removal F
  retired : Removal F
  strays : Removal F

def Recovery.swapIn (r : Recovery F) : DirScript F Unit := do
  onlyIf (·.canonical.isSome) (do
    clear .backup r.replaced
    rename .canonical .backup)
  rename .staging .canonical

def Recovery.rollForward (r : Recovery F) : DirScript F Unit := do
  onlyIf (·.staging.isSome) r.swapIn
  -- the safety net: never leave the canonical path without an index
  onlyIf (fun d => d.canonical.isNone && d.backup.isSome) (rename .backup .canonical)
  clear .backup r.retired
  perform [.removeMarker]

def Recovery.discardStrays (r : Recovery F) : DirScript F Unit := do
  clear .staging r.strays
  clear .backup r.retired

def recoverReindex (r : Recovery F) : DirScript F Unit :=
  look >>= fun d => if d.marker then r.rollForward else r.discardStrays

section

variable {P C R : ShardDirs F → Prop}

lemma after_writes (d : ShardDirs F) (p : Place) (l : List (List F)) :
    ∃ files, after d (l.map (FsEffect.write p)) = d.set p files := by
  induction l generalizing d with
  | nil => exact ⟨d.get p, (d.set_get p).symm⟩
  | cons x l ih =>
    obtain ⟨files, h⟩ := ih (d.set p (some x))
    exact ⟨files, h.trans (d.set_set p _ _)⟩

lemma writes_meets (p : Place) (l : List (List F)) (hC : ∀ d files, P d → C (d.set p files)) :
    Meets P (perform (l.map (.write p)) : DirScript F Unit) C
      (OnOk fun d' => ∃ d files, P d ∧ d' = d.set p files) := by
  refine Meets.perform fun d hd => ⟨fun n => ?_, fun _ _ => ?_⟩
  · rw [← List.map_take]
    obtain ⟨files, h⟩ := after_writes d p (l.take n)
    rw [h]
    exact hC d files hd
  · obtain ⟨files, h⟩ := after_writes d p l
    exact ⟨d, files, hd, h⟩

lemma removeDirAll_meets (p : Place) (r : Removal F) (h : ∀ d, P d → C d)
    (hC : ∀ d files, P d → (d.get p).isSome → C (d.set p files))
    (hR : ∀ d, P d → R (d.set p none)) : Meets P (removeDirAll p r) C (OnOk R) := by
  refine Meets.look_bind fun d hd => ?_
  by_cases hp : (d.get p).isSome
  · rw [if_pos hp]
    have hC : ∀ e files, e = d → C (e.set p files) := fun e files he => he ▸ hC d files hd hp
    refine (writes_meets p r.left hC).seq ?_
    by_cases hf : r.finishes
    · rw [if_pos hf]
      refine Meets.perform_onOk ?_
      rintro _ ⟨e, files, he, rfl⟩
      refine ⟨hC e files he, ?_⟩
      rw [show Effects.exec (e.set p files) (FsEffect.removeDir p) = e.set p none from e.set_set p _ _]
      exact ⟨hC e none he, hR e (he ▸ hd)⟩
    · rw [if_neg hf]
      refine Meets.fail_onOk ?_
      rintro _ ⟨e, files, he, rfl⟩
      exact hC e files he
  · rw [if_neg hp]
    exact Meets.fail_onOk fun e he => h e (he ▸ hd)

lemma clear_meets (p : Place) (r : Removal F) (h : ∀ d, P d → C d)
    (hC : ∀ d files, P d → (d.get p).isSome → C (d.set p files))
    (hR : ∀ d, P d → R (d.set p none)) : Meets P (clear p r) C (OnOk R) := by
  refine Meets.onlyIf ?_ ?_
  · exact removeDirAll_meets p r (fun d hd => h d hd.1) (fun d files hd => hC d files hd.1)
      (fun d hd => hR d hd.1)
  · intro d hd hp
    have hp : d.get p = none := by simpa using hp
    refine ⟨h d hd, fun _ _ => ?_⟩
    have := hR d hd
    rwa [← hp, d.set_get] at this

lemma rename_meets (p q : Place) (hC : ∀ d, P d → C d)
    (hR : ∀ d, P d → (d.get p).isSome → C (d.exec (.rename p q)) ∧ R (d.exec (.rename p q))) :
    Meets P (rename p q) C (OnOk R) := by
  refine Meets.look_bind fun d hd => ?_
  have hd' : ∀ e, e = d → C e := fun e he => hC e (he ▸ hd)
  cases hp : d.get p with
  | none => exact Meets.fail_onOk hd'
  | some files =>
    have moved : Meets (· = d) (perform [.rename p q] : DirScript F Unit) C (OnOk R) := by
      refine Meets.perform_onOk ?_
      rintro _ rfl
      exact ⟨hC _ hd, hR _ hd (by rw [hp]; rfl)⟩
    cases hq : d.get q with
    | none => exact moved
    | some there =>
      cases there with
      | nil => exact moved
      | cons => exact Meets.fail_onOk hd'

end

/-- The files recovery settles on: with the marker the staged generation, as long as it has not been
swapped in; without it what the canonical path holds. -/
def ShardDirs.settles (d : ShardDirs F) : Option (List F) :=
  if d.marker then d.staging <|> (d.canonical <|> d.backup) else d.canonical

section

variable {d : ShardDirs F} {live : List F}

lemma ShardDirs.settles_marked (h : d.marker) :
    d.settles = (d.staging <|> (d.canonical <|> d.backup)) := if_pos h

lemma ShardDirs.settles_unmarked (h : d.marker = false) : d.settles = d.canonical := by
  simp [settles, h]

lemma ShardDirs.settles_staged (hm : d.marker) (hs : d.staging = some live) : d.settles = some live := by
  simp [settles, hm, hs]

lemma ShardDirs.settles_swapped (hs : d.marker → d.staging = none)
    (hc : d.canonical = some live) : d.settles = some live := by
  by_cases hm : d.marker
  · simp [settles, hm, hs hm, hc]
  · simp [settles, hm, hc]

end

section

variable (r : Recovery F) (live : List F)

lemma Recovery.swapIn_meets :
    Meets (fun d => d.marker = true ∧ d.staging = some live) r.swapIn (·.settles = some live)
      (OnOk fun d => d.marker = true ∧ d.staging = none ∧ d.canonical = some live) := by
  have staged : ∀ d : ShardDirs F, d.marker ∧ d.staging = some live → d.settles = some live :=
    fun d h => d.settles_staged h.1 h.2
  -- the old generation moves out of the way while the marked staging directory stays
  have aside : Meets (fun d => d.marker = true ∧ d.staging = some live)
      (onlyIf (·.canonical.isSome) (do
        clear .backup r.replaced
        rename .canonical .backup)) (·.settles = some live)
      (OnOk fun d => d.marker = true ∧ d.staging = some live) := by
    refine Meets.onlyIf ?_ fun d h _ => ⟨staged d h, fun _ _ => h⟩
    refine Meets.seq (clear_meets .backup r.replaced (fun d h => staged d h.1) ?_ ?_)
      (rename_meets .canonical .backup staged ?_)
    · exact fun d files h _ => staged _ h.1
    · exact fun d h => h.1
    · exact fun d h _ => ⟨staged _ h, h⟩
  refine aside.seq (rename_meets .staging .canonical staged fun d h _ => ?_)
  exact ⟨ShardDirs.settles_swapped (fun _ => rfl) h.2, h.1, rfl, h.2⟩

lemma Recovery.rollForward_meets :
    Meets (fun d => d.marker = true ∧ d.settles = some live) r.rollForward (·.settles = some live)
      (OnOk (· = ShardDirs.serving (some live))) := by
  let Swapped (d : ShardDirs F) : Prop := d.marker ∧ d.staging = none ∧ d.canonical = some live
  let Found (d : ShardDirs F) : Prop := d.marker ∧ d.staging = none ∧ d.settles = some live
  have swapped : ∀ d, Swapped d → d.settles = some live := fun d h => d.settles_swapped (fun _ => h.2.1) h.2.2
  have forward : Meets (fun d => d.marker = true ∧ d.settles = some live)
      (onlyIf (·.staging.isSome) r.swapIn) (·.settles = some live) (OnOk Found) := by
    refine Meets.onlyIf ?_ fun d h hs => ⟨h.2, fun _ _ => ⟨h.1, by simpa using hs, h.2⟩⟩
    refine (r.swapIn_meets live).conseq ?_ (fun _ h => h) ?_
    · rintro d ⟨⟨hm, hl⟩, hs⟩
      obtain ⟨files, hf⟩ := isSome_iff_exists.mp hs
      rw [d.settles_staged hm hf] at hl
      exact ⟨hm, hf.trans hl⟩
    · exact fun _ d h a ha => ⟨(h a ha).1, (h a ha).2.1, swapped d (h a ha)⟩
  have restore : Meets Found (onlyIf (fun d => d.canonical.isNone && d.backup.isSome)
      (rename .backup .canonical)) (·.settles = some live) (OnOk Swapped) := by
    refine Meets.onlyIf (rename_meets .backup .canonical (fun d h => h.1.2.2) ?_) ?_
    · rintro d ⟨⟨hm, hs, hl⟩, ht⟩ _
      have hb : d.backup = some live := by
        simp only [Bool.and_eq_true, isNone_iff_eq_none] at ht
        simpa [d.settles_marked hm, hs, ht.1] using hl
      have : Swapped (d.exec (.rename .backup .canonical)) := ⟨hm, hs, hb⟩
      exact ⟨swapped _ this, this⟩
    · rintro d ⟨hm, hs, hl⟩ ht
      refine ⟨hl, fun _ _ => ⟨hm, hs, ?_⟩⟩
      rw [d.settles_marked hm, hs] at hl
      cases hc : d.canonical with
      | some files => simpa [hc] using hl
      | none =>
        have hb : d.backup = none := by simpa [hc] using ht
        simp [hc, hb] at hl
  refine forward.seq (restore.seq (Meets.seq (R := fun d => Swapped d ∧ d.backup = none)
    (clear_meets .backup r.retired swapped ?_ ?_) (Meets.perform_onOk ?_)))
  · exact fun d files h _ => swapped _ h
  · exact fun d h => ⟨h, rfl⟩
  · rintro ⟨c, s, b, m⟩ ⟨⟨hm, hs, hc⟩, hb⟩
    obtain rfl : s = none := hs
    obtain rfl : c = some live := hc
    obtain rfl : b = none := hb
    exact ⟨swapped _ ⟨hm, rfl, rfl⟩, rfl, rfl⟩

lemma Recovery.discardStrays_meets :
    Meets (fun d => d.marker = false ∧ d.settles = some live) r.discardStrays (·.settles = some live)
      (OnOk (· = ShardDirs.serving (some live))) := by
  let Live (d : ShardDirs F) : Prop := d.marker = false ∧ d.canonical = some live
  have live_settles : ∀ d, Live d → d.settles = some live := fun d h => (d.settles_unmarked h.1).trans h.2
  have start : ∀ d : ShardDirs F, d.marker = false ∧ d.settles = some live → Live d :=
    fun d h => ⟨h.1, (d.settles_unmarked h.1).symm.trans h.2⟩
  refine Meets.seq (R := fun d => Live d ∧ d.staging = none)
    (clear_meets .staging r.strays (fun d h => h.2) ?_ ?_)
    (clear_meets .backup r.retired (fun d h => live_settles d h.1) ?_ ?_)
  · exact fun d files h _ => live_settles _ (start d h)
  · exact fun d h => ⟨start d h, rfl⟩
  · exact fun d files h _ => live_settles _ h.1
  · rintro ⟨c, s, b, m⟩ ⟨⟨hm, hc⟩, hs⟩
    obtain rfl : m = false := hm
    obtain rfl : s = none := hs
    obtain rfl : c = some live := hc
    rfl

lemma recoverReindex_meets : Meets (·.settles = some live) (recoverReindex r) (·.settles = some live)
      (OnOk (· = ShardDirs.serving (some live))) := by
  refine Meets.look_bind fun d hd => ?_
  by_cases hm : d.marker
  · rw [if_pos hm]
    refine (r.rollForward_meets live).conseq ?_ (fun _ h => h) (fun _ _ h => h)
    rintro _ rfl
    exact ⟨hm, hd⟩
  · rw [if_neg hm]
    refine (r.discardStrays_meets live).conseq ?_ (fun _ h => h) (fun _ _ h => h)
    rintro _ rfl
    exact ⟨by simpa using hm, hd⟩

end

section

variable {P R : ShardDirs F → Prop}

lemma clear_returns (p : Place) {r : Removal F} (hf : r.finishes)
    (h : ∀ d, P d → R (d.set p none)) : Returns P (clear p r) R := by
  refine Returns.onlyIf ?_ fun d hd hp => ?_
  · rintro d ⟨hd, hp⟩
    rw [show removeDirAll p r d = (if (d.get p).isSome then
      perform (r.left.map (.write p)) >>= fun _ => if r.finishes then perform [.removeDir p] else fail .removal
      else fail .notFound : DirScript F Unit) d from rfl, if_pos hp, if_pos hf]
    obtain ⟨files, hw⟩ := after_writes d p r.left
    have writes : Returns (· = d) (perform (r.left.map (.write p)) : DirScript F Unit)
        (· = d.set p files) := Returns.perform fun e he => he ▸ hw
    refine writes.seq (Returns.perform ?_) d rfl
    rintro _ rfl
    have gone : after (d.set p files) [(FsEffect.removeDir p : FsEffect F)] = d.set p none := by
      rw [after_cons, after_nil]
      exact d.set_set p files none
    rw [gone]
    exact h d hd
  · have hp : d.get p = none := by simpa using hp
    have := h d hd
    rwa [← hp, d.set_get] at this

lemma rename_returns (p q : Place) (h : ∀ d, P d → (d.get p).isSome ∧ d.get q = none ∧
    R (d.exec (.rename p q))) : Returns P (rename p q) R := by
  intro d hd
  obtain ⟨hp, hq, hr⟩ := h d hd
  obtain ⟨files, hp⟩ := isSome_iff_exists.mp hp
  simp only [rename, look, bind, hp, hq, perform, List.nil_append]
  exact ⟨trivial, hr⟩

structure Recovery.Finishes (r : Recovery F) : Prop where
  replaced : r.replaced.finishes = true
  retired : r.retired.finishes = true
  strays : r.strays.finishes = true

lemma Recovery.Finishes.swapIn {r : Recovery F} (hr : r.Finishes) :
    Returns (·.staging.isSome) r.swapIn fun _ => True := by
  refine Returns.seq (R := fun d => d.staging.isSome = true ∧ d.canonical = none) (Returns.onlyIf ?_ ?_) ?_
  · refine Returns.seq (R := fun d => d.staging.isSome = true ∧ d.canonical.isSome = true ∧ d.backup = none)
      (clear_returns .backup hr.replaced fun d h => ⟨h.1, h.2, rfl⟩) ?_
    exact rename_returns .canonical .backup fun d h => ⟨h.2.1, h.2.2, h.1, rfl⟩
  · exact fun d h hc => ⟨h, by simpa using hc⟩
  · exact rename_returns .staging .canonical fun d h => ⟨h.1, h.2, trivial⟩

lemma Recovery.Finishes.returns {r : Recovery F} (hr : r.Finishes) (d : ShardDirs F) :
    (recoverReindex r d).2 = .ok () := by
  have forward : Returns (fun _ => True) r.rollForward fun _ => True := by
    refine Returns.seq (R := fun _ => True) (Returns.onlyIf ?_ fun _ _ _ => trivial) ?_
    · exact fun d h => hr.swapIn d h.2
    refine Returns.seq (R := fun _ => True) (Returns.onlyIf ?_ fun _ _ _ => trivial) ?_
    · refine rename_returns .backup .canonical fun d h => ?_
      obtain ⟨_, h⟩ := h
      simp only [Bool.and_eq_true, isNone_iff_eq_none] at h
      exact ⟨h.2, h.1, trivial⟩
    · exact Returns.seq (R := fun _ => True) (clear_returns .backup hr.retired fun _ _ => trivial)
        (Returns.perform fun _ _ => trivial)
  have discard : Returns (fun _ => True) r.discardStrays fun _ => True :=
    Returns.seq (R := fun _ => True) (clear_returns .staging hr.strays fun _ _ => trivial)
      (clear_returns .backup hr.retired fun _ _ => trivial)
  rw [show recoverReindex r d = (if d.marker then r.rollForward else r.discardStrays) d from rfl]
  split
  · exact (forward d trivial).1
  · exact (discard d trivial).1

end

variable (live : List F)

/-- The canonical path holds the live generation and no promotion waits to be finished. -/
def ShardDirs.Swapped (d : ShardDirs F) : Prop :=
  d.canonical = some live ∧ (d.marker = true → d.staging = none)

variable {live} in
lemma ShardDirs.Swapped.settles {d : ShardDirs F} (h : d.Swapped live) : d.settles = some live :=
  settles_swapped h.2 h.1

lemma clear_staging_meets (clears : Removal F) :
    Meets (·.Swapped live) (clear .staging clears) (·.settles = some live)
      (OnOk fun d => d.canonical = some live ∧ d.staging = none) := by
  refine clear_meets .staging clears (fun d h => h.settles) ?_ (fun d h => ⟨h.1, rfl⟩)
  intro d files h hs
  refine ShardDirs.settles_swapped (fun hm => ?_) h.1
  rw [show d.get .staging = none from h.2 hm] at hs
  cases hs

lemma buildStagingGeneration_meets (clears : Removal F) (b : Build F) :
    Meets (·.Swapped live) (buildStagingGeneration clears b) (·.settles = some live)
      (OnOk fun d => ∃ files, b.result = .ok files ∧ d.staging = some files) := by
  have kept : ∀ d : ShardDirs F, d.canonical = some live ∧ d.staging = none → d.settles = some live :=
    fun d h => ShardDirs.settles_swapped (fun _ => h.2) h.1
  have unmarked : ∀ d : ShardDirs F, d.canonical = some live ∧ d.marker = false → d.settles = some live :=
    fun d h => (d.settles_unmarked h.2).trans h.1
  refine (clear_staging_meets live clears).seq (Meets.seq
    (R := fun d => d.canonical = some live ∧ d.marker = false) (Meets.onlyIf ?_ ?_) ?_)
  · exact Meets.perform_onOk fun d h => ⟨kept d h.1, unmarked _ ⟨h.1.1, rfl⟩, h.1.1, rfl⟩
  · exact fun d h hm => ⟨kept d h, fun _ _ => ⟨h.1, hm⟩⟩
  -- the marker is gone, so nothing written to the staging directory counts
  · refine (writes_meets .staging b.grows fun d files h => unmarked (d.set .staging files) h).seq ?_
    cases b.result with
    | error e =>
      refine Meets.fail_onOk ?_
      rintro _ ⟨d, files, h, rfl⟩
      exact unmarked _ h
    | ok files =>
      refine Meets.perform_onOk ?_
      rintro _ ⟨d, there, h, rfl⟩
      exact ⟨unmarked _ h, unmarked _ h, files, rfl, rfl⟩

lemma discardStaging_meets (clears : Removal F) :
    Meets (fun d => d.settles = some live ∧ (d.marker → d.staging = none))
      (discardStaging clears) (·.settles = some live) (OnOk fun d => d.staging = none) := by
  refine clear_meets .staging clears (fun d h => h.1) ?_ (fun _ _ => rfl)
  intro d files h hs
  by_cases hm : d.marker
  · rw [show d.get .staging = none from h.2 hm] at hs
    cases hs
  · have hm : d.marker = false := by simpa using hm
    exact ((d.set .staging files).settles_unmarked hm).trans ((d.settles_unmarked hm).symm.trans h.1)

lemma Promotion.swap_meets (p : Promotion F) :
    Meets (fun d => d.marker = true ∧ d.staging = some live) p.swap (·.settles = some live)
      (OnOk fun d => d.canonical = some live ∧ d.staging = none) := by
  let Done (d : ShardDirs F) : Prop := d.canonical = some live ∧ d.staging = none
  have staged : ∀ d : ShardDirs F, d.marker ∧ d.staging = some live → d.settles = some live :=
    fun d h => d.settles_staged h.1 h.2
  have done : ∀ d, Done d → d.settles = some live := fun d h => ShardDirs.settles_swapped (fun _ => h.2) h.1
  refine Meets.seq (R := fun d => d.marker = true ∧ d.staging = some live)
    (rename_meets .canonical .backup staged fun d h _ => ⟨staged _ h, h⟩) ?_
  refine Meets.seq (R := Done) (rename_meets .staging .canonical staged fun d h _ => ?_) ?_
  · exact ⟨done _ ⟨h.2, rfl⟩, h.2, rfl⟩
  refine Meets.seq (R := Done) (Meets.onlyIf (Meets.fail_onOk fun d h => done d h.1) ?_) ?_
  · exact fun d h _ => ⟨done d h, fun _ _ => h⟩
  -- the rest only touches the backup and the marker, whether it succeeds or not
  have retire : Meets Done (attempt (removeDirAll .backup p.retires)) Done (OnOk Done) :=
    (removeDirAll_meets .backup p.retires (R := Done) (fun _ h => h) (fun _ _ h _ => h)
      (fun _ h => h)).ends.attempt
  refine (retire.conseq (fun _ h => h) done (fun _ _ h => h)).seq (Meets.onlyIf ?_ ?_)
  · exact Meets.perform_onOk fun d h => ⟨done d h.1, done _ h.1, h.1⟩
  · exact fun d h _ => ⟨done d h, fun _ _ => h⟩

variable {stop : Option Nat}

inductive ReindexOp (F : Type)
  | build (clears : Removal F) (b : Build F)
  | promote (p : Promotion F)
  | discard (clears : Removal F)
  | recover (r : Recovery F)

def ReindexOp.script : ReindexOp F → DirScript F Unit
  | .build clears b => buildStagingGeneration clears b
  | .promote p => promoteGeneration p
  | .discard clears => discardStaging clears
  | .recover r => recoverReindex r

structure ReindexStep (F : Type) where
  op : ReindexOp F
  stop : Option Nat

namespace ReindexStep

variable (e : ReindexStep F) (d : ShardDirs F)

def effects : List (FsEffect F) :=
  match e.stop with
  | none => (e.op.script d).1
  | some n => (e.op.script d).1.take n

def disk : ShardDirs F := after d (e.effects d)

def completes : Bool :=
  e.stop.isNone && (e.op.script d).2.isOk

def marks : Bool :=
  (e.effects d).any fun
    | .writeMarker => true
    | _ => false

end ReindexStep

/-- A shard under reindex, with the generation it should come back with and what the last completed build left in
staging. -/
structure Reindexing (F : Type) where
  disk : ShardDirs F
  live : List F
  staged : Option (List F)

namespace Reindexing

def start (files : List F) : Reindexing F := ⟨.serving (some files), files, none⟩

def advance (s : Reindexing F) (e : ReindexStep F) : Reindexing F :=
  match e.op with
  | .build _ b => ⟨e.disk s.disk, s.live, if e.completes s.disk then b.result.toOption else none⟩
  | .promote _ => ⟨e.disk s.disk, if e.marks s.disk then s.staged.getD s.live else s.live, s.staged⟩
  | .discard _ => ⟨e.disk s.disk, s.live, none⟩
  | .recover _ => ⟨e.disk s.disk, s.live, none⟩

def run (s : Reindexing F) (es : List (ReindexStep F)) : Reindexing F := es.foldl advance s

/-- A build starts with the canonical shard in place and no promotion to finish, a discard with none to finish, and a
promotion finds what a completed build left. -/
def Permits (s : Reindexing F) (e : ReindexStep F) : Prop :=
  match e.op with
  | .build _ _ => s.disk.marker = true → s.disk.staging = none ∧ s.disk.canonical.isSome = true
  | .promote _ => s.disk.staging.isSome = true ∧ s.disk.staging = s.staged
  | .discard _ => s.disk.marker = true → s.disk.staging = none
  | .recover _ => True

def Conforms (s : Reindexing F) : List (ReindexStep F) → Prop
  | [] => True
  | e :: es => s.Permits e ∧ (s.advance e).Conforms es

end Reindexing

variable {e : ReindexStep F}

lemma ReindexStep.disk_of_meets {P C : ShardDirs F → Prop}
    {Q : Except ReindexError Unit → ShardDirs F → Prop} (h : Meets P e.op.script C Q)
    {d : ShardDirs F} (hd : P d) : C (e.disk d) := by
  obtain ⟨op, stop⟩ := e
  cases stop with
  | none => exact (h.ends d hd).2
  | some n => exact (h d hd).1 n

variable {s : Reindexing F}

namespace Reindexing

def Sound (s : Reindexing F) : Prop := s.disk.settles = some s.live

lemma start_sound (files : List F) : (start files).Sound := rfl

lemma build_sound (h : s.Sound) (hp : s.Permits ⟨.build clears b, stop⟩) :
    (s.advance ⟨.build clears b, stop⟩).Sound := by
  have swapped : s.disk.Swapped s.live := by
    by_cases hm : s.disk.marker
    · obtain ⟨hs, hc⟩ := hp hm
      obtain ⟨files, hf⟩ := isSome_iff_exists.mp hc
      have : s.disk.settles = some files := ShardDirs.settles_swapped (fun _ => hs) hf
      exact ⟨hf.trans (this.symm.trans h), fun _ => hs⟩
    · have hm : s.disk.marker = false := by simpa using hm
      exact ⟨(s.disk.settles_unmarked hm).symm.trans h, fun h' => absurd h' (by simp [hm])⟩
  exact ReindexStep.disk_of_meets (e := ⟨.build clears b, stop⟩)
    (buildStagingGeneration_meets s.live clears b) swapped

lemma promote_sound (h : s.Sound)
    (hp : s.Permits ⟨.promote p, stop⟩) : (s.advance ⟨.promote p, stop⟩).Sound := by
  obtain ⟨hs, he⟩ := hp
  obtain ⟨files, hf⟩ := isSome_iff_exists.mp hs
  have hlive : s.staged.getD s.live = files := by rw [← he, hf, getD_some]
  have swap := p.swap_meets files
  cases stop with
  | none => exact ((swap.ends { s.disk with marker := true } ⟨rfl, hf⟩).2).trans (congrArg _ hlive.symm)
  | some n =>
    cases n with
    | zero => exact h
    | succ n => exact ((swap { s.disk with marker := true } ⟨rfl, hf⟩).1 n).trans (congrArg _ hlive.symm)

lemma advance_sound (h : s.Sound) (hp : s.Permits e) : (s.advance e).Sound := by
  obtain ⟨op, stop⟩ := e
  cases op with
  | build clears b => exact build_sound h hp
  | promote p => exact promote_sound h hp
  | discard clears =>
    exact ReindexStep.disk_of_meets (e := ⟨.discard clears, stop⟩) (discardStaging_meets s.live clears) ⟨h, hp⟩
  | recover r => exact ReindexStep.disk_of_meets (e := ⟨.recover r, stop⟩) (recoverReindex_meets r s.live) h

lemma run_sound (h : s.Sound) (hc : s.Conforms es) : (s.run es).Sound := by
  induction es generalizing s with
  | nil => exact h
  | cons e es ih => exact ih (advance_sound h hc.1) hc.2

end Reindexing

def ReindexStep.Builds (e : ReindexStep F) (files : List F) : Prop :=
  e.stop = none ∧ ∃ clears b, e.op = .build clears b ∧ b.result = .ok files

namespace Reindexing

variable {G : List F → Prop}

lemma advance_built (hl : G s.live)
    (hs : ∀ files, s.staged = some files → G files) (he : ∀ files, e.Builds files → G files) :
    G (s.advance e).live ∧ ∀ files, (s.advance e).staged = some files → G files := by
  obtain ⟨op, stop⟩ := e
  cases op with
  | build clears b =>
    refine ⟨hl, fun files h => he files ?_⟩
    have h : (if ReindexStep.completes ⟨.build clears b, stop⟩ s.disk then b.result.toOption
      else none) = some files := h
    split at h
    · rename_i hc
      have hstop : stop = none := by
        simp only [ReindexStep.completes, Bool.and_eq_true, isNone_iff_eq_none] at hc
        exact hc.1
      cases hb : b.result with
      | error e => rw [hb] at h; cases h
      | ok there =>
        rw [hb] at h
        cases h
        exact ⟨hstop, clears, b, rfl, hb⟩
    · cases h
  | promote p =>
    refine ⟨?_, hs⟩
    show G (if ReindexStep.marks ⟨.promote p, stop⟩ s.disk then s.staged.getD s.live else s.live)
    split
    · cases hst : s.staged with
      | none => exact hl
      | some files => exact hs files hst
    · exact hl
  | _ => exact ⟨hl, fun _ h => (nomatch h)⟩

/-- The live generation is the first one or one a build completed. -/
lemma run_built (hl : G s.live) (hs : ∀ files, s.staged = some files → G files)
    (he : ∀ e ∈ es, ∀ files, e.Builds files → G files) : G (s.run es).live := by
  induction es generalizing s with
  | nil => exact hl
  | cons e es ih =>
    obtain ⟨hl', hs'⟩ := advance_built hl hs (he e List.mem_cons_self)
    exact ih hl' hs' fun e' h => he e' (List.mem_cons_of_mem e h)

end Reindexing

lemma recoverReindex_serving (r : Recovery F) (files : Option (List F)) :
    recoverReindex r (.serving files) = ([], .ok ()) := rfl

/-- In a run whose steps are all permitted, stopped wherever it may be, a recovery that completes leaves the live
generation alone at the canonical path: the staged one from the moment its marker is durable. -/
theorem reindex_survives_stops (files : List F) (es : List (ReindexStep F))
    (h : (Reindexing.start files).Conforms es) (r : Recovery F) :
    let s := (Reindexing.start files).run es
    (s.live = files ∨ ∃ e ∈ es, e.Builds s.live) ∧
      (r.Finishes → (recoverReindex r s.disk).2 = .ok ()) ∧
      ((recoverReindex r s.disk).2 = .ok () → after s.disk (recoverReindex r s.disk).1 = .serving (some s.live) ∧
        ∀ again : Recovery F, recoverReindex again (.serving (some s.live)) = ([], .ok ())) := by
  intro s
  refine ⟨?_, fun hr => hr.returns s.disk, fun hr => ⟨?_, fun again => recoverReindex_serving again _⟩⟩
  · exact Reindexing.run_built (G := fun live => live = files ∨ ∃ e ∈ es, e.Builds live) (.inl rfl)
      (fun _ h => (nomatch h)) (fun e he built hb => .inr ⟨e, he, hb⟩)
  · exact (recoverReindex_meets r s.live s.disk
      (Reindexing.run_sound (Reindexing.start_sound files) h)).2 () hr

namespace SampleReindex

def removes : Removal Nat := ⟨[[]], true⟩

def build : Build Nat := ⟨[[], [2]], .ok [2, 3]⟩

def recovery : Recovery Nat := ⟨removes, removes, removes⟩

def stopped : List (ReindexStep Nat) :=
  [⟨.build removes build, none⟩, ⟨.promote ⟨true, removes, true⟩, some 2⟩, ⟨.recover recovery, some 1⟩]

def unstaged : List (ReindexStep Nat) :=
  [⟨.promote ⟨true, removes, true⟩, none⟩, ⟨.build removes build, some 1⟩]

end SampleReindex

open SampleReindex

theorem reindex_survives_stopped_swap : after ((Reindexing.start [1]).run stopped).disk
      (recoverReindex recovery ((Reindexing.start [1]).run stopped).disk).1 = .serving (some [2, 3]) := by
  have h := reindex_survives_stops [1] stopped ⟨fun h => (nomatch h), ⟨rfl, rfl⟩, trivial, trivial⟩ recovery
  exact (h.2.2 (h.2.1 ⟨rfl, rfl, rfl⟩)).1

/-- The shard is lost: its files went with the backup that recovery took for a stray. -/
theorem reindex_loses_shard :
    (recoverReindex recovery ((Reindexing.start [1]).run unstaged).disk).2 = .ok () ∧
      after ((Reindexing.start [1]).run unstaged).disk
        (recoverReindex recovery ((Reindexing.start [1]).run unstaged).disk).1 = .serving none := by
  exact ⟨rfl, rfl⟩

end GrowlerDB.Index
