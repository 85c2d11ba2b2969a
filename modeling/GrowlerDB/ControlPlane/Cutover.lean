import GrowlerDB.ControlPlane.ReindexJob
import GrowlerDB.Lib.Results

namespace GrowlerDB.ControlPlane
open Core Lib List Option ReindexJob IndexEntry Except

variable {S : Type}

variable {target : Target} {units : List Target}

namespace IndexEntry

variable {entry entry' : IndexEntry S} {index : String}

/-- A plan leaves no unit out: no window is cold, and the index has units of one kind only. -/
def AllPlanned (entry : IndexEntry S) : Prop :=
  if entry.definition.windowing.isSome
    then entry.shards.entries = [] ∧ ∀ e ∈ entry.windows.entries, e.2.cold = false
    else entry.windows.entries = []

instance (entry : IndexEntry S) : Decidable entry.AllPlanned := by
  unfold AllPlanned
  infer_instance

lemma primaryEndpoint_of_primary {assignment : ShardAssignment} {unit : UnitId} {node : NodeId}
    (hp : assignment.primary = some node) (h : primaryEndpoint index assignment unit = .ok target) :
    target = (node, unit) := by
  simp only [primaryEndpoint, hp] at h
  split_ifs at h
  exact (ok.inj h).symm

lemma mem_planned {E : Type} {entries : List E} {assignment : E → ShardAssignment} {unit : E → UnitId}
    (h : entries.mapM (fun e => primaryEndpoint index (assignment e) (unit e)) = .ok units) {e : E}
    (he : e ∈ entries) {node : NodeId} (hp : (assignment e).primary = some node) : (node, unit e) ∈ units := by
  induction entries generalizing units with
  | nil => cases he
  | cons a entries ih =>
    obtain ⟨target, rest, htarget, hrest, rfl⟩ := mapM_ok_cons h
    rcases mem_cons.mp he with rfl | he
    · rw [← primaryEndpoint_of_primary hp htarget]
      exact mem_cons_self
    · exact mem_cons_of_mem _ (ih hrest he)

lemma planned_of_allPlanned (hall : entry.AllPlanned)
    (h : entry.planReindexShards index = .ok units) : ∀ t ∈ entry.targets, t ∈ units := by
  intro t ht
  unfold AllPlanned at hall
  unfold planReindexShards at h
  split_ifs at hall h with hw hs
  · rw [targets, hall.1, filterMap_nil, nil_append, mem_filterMap] at ht
    obtain ⟨e, he, hp⟩ := ht
    obtain ⟨node, hnode, rfl⟩ := map_eq_some_iff.mp hp
    have hhot : e ∈ entry.windows.entries.filter (fun e => !e.2.cold) := mem_filter.mpr ⟨he, by rw [hall.2 e he]; rfl⟩
    dsimp only at h
    split at h
    · cases h
    · cases h
    · cases h
      rename_i hmap
      exact mem_planned hmap hhot hnode
  · rw [targets, hall, filterMap_nil, append_nil, mem_filterMap] at ht
    obtain ⟨e, he, hp⟩ := ht
    obtain ⟨node, hnode, rfl⟩ := map_eq_some_iff.mp hp
    exact mem_planned h he hnode

lemma setDefinition_ok {expected : Nat} {definition : Definition S}
    (h : entry.setDefinition index expected definition = .ok entry') :
    entry' = { entry with definition := definition, definitionVersion := expected + 1 } := by
  unfold setDefinition at h
  split_ifs at h
  exact (ok.inj h).symm

lemma commitReindexCutover_ok {definition : Option (Nat × Definition S)}
    (h : entry.commitReindexCutover index definition expectedGen newGen = .ok entry') :
    entry'.definition = (definition.map Prod.snd).getD entry.definition ∧ entry'.targets = entry.targets := by
  unfold commitReindexCutover at h
  split_ifs at h
  split at h
  · cases h
    exact ⟨rfl, rfl⟩
  · split_ifs at h
    cases h
    exact ⟨rfl, rfl⟩

end IndexEntry

variable {built todo : List Target}

namespace ReindexJob

variable {job : ReindexJob S} {entry entry' : IndexEntry S}

lemma commit_ok (h : job.commit index entry = .ok (entry', writes)) :
    entry'.definition = job.alter.getD entry.definition ∧ entry'.targets = entry.targets := by
  unfold commit at h
  split_ifs at h
  · split at h
    · obtain ⟨rfl, -⟩ := Prod.mk.inj (ok.inj h)
      rename_i hnone
      rw [hnone]
      exact ⟨rfl, rfl⟩
    · rename_i definition hsome
      obtain ⟨e, he, heq⟩ := map_ok h
      obtain ⟨rfl, -⟩ := Prod.mk.inj heq
      rw [hsome, setDefinition_ok he]
      exact ⟨rfl, rfl⟩
  · obtain ⟨e, he, heq⟩ := map_ok h
    obtain ⟨rfl, -⟩ := Prod.mk.inj heq
    obtain ⟨hdef, htargets⟩ := commitReindexCutover_ok he
    refine ⟨?_, htargets⟩
    rw [hdef]
    cases job.alter <;> rfl

def Captured (job : ReindexJob S) (entry : IndexEntry S) : Prop :=
  job.currentGen = entry.generation ∧ job.currentDefVer = entry.definitionVersion

lemma commit_of_captured (h : job.Captured entry) (error : RegistryError) :
    job.commit index entry ≠ .error error := by
  obtain ⟨hgen, hver⟩ := h
  unfold commit
  split_ifs
  · split
    · exact nofun
    · simp [setDefinition, hver, Except.map]
  · cases job.alter <;> simp [commitReindexCutover, hgen, hver, Except.map]

def promotes (job : ReindexJob S) : Option Target :=
  match job.phase with
  | .promoting (target :: _) _ => some target
  | _ => none

/-- How far an alter is: nothing is promoted before all is built, and the units are promoted in their order. -/
def Progress (job : ReindexJob S) (entry : IndexEntry S) : Prop :=
  (∀ t ∈ entry.targets, t ∈ job.units) ∧ match job.phase with
    | .pending => job.promoted = []
    | .building _ _ | .awaiting _ _ _ _ => job.promoted = [] ∧ job.Captured entry
    | .unwinding _ _ => job.promoted = []
    | .promoting todo _ => job.promoted ++ todo = job.units ∧ job.Captured entry
    | .cuttingOver => job.promoted = job.units ∧ job.Captured entry
    | .ended .done => job.promoted = job.units
    | .ended _ => job.promoted = []

lemma Progress.advance (h : job.Progress entry) : (job.advance entry).Progress entry := by
  obtain ⟨hall, hphase⟩ := h
  unfold ReindexJob.advance
  split
  · rename_i hp
    simp only [hp] at hphase
    exact ⟨hall, hphase, rfl, rfl⟩
  · rename_i hp
    simp only [hp] at hphase
    split_ifs
    · exact ⟨hall, hphase.1⟩
    · split
      · exact ⟨hall, hphase⟩
      · exact ⟨hall, by rw [hphase.1]; rfl, hphase.2⟩
  · rename_i canceled hp
    simp only [hp] at hphase
    cases canceled <;> exact ⟨hall, hphase⟩
  · rename_i hp
    simp only [hp, append_nil] at hphase
    exact ⟨hall, hphase⟩
  · exact ⟨hall, hphase⟩

lemma Progress.unwind (h : job.Progress entry)
    (hp : job.phase = .awaiting target todo built call) (cancelled : Bool) :
    (job.unwind target built cancelled).Progress entry := by
  obtain ⟨hall, hphase⟩ := h
  simp only [hp] at hphase
  unfold ReindexJob.unwind
  split_ifs <;> exact ⟨hall, hphase.1⟩

lemma Progress.answered
    (h : job.Progress entry) (hp : job.phase = .awaiting target todo built (.answered reply)) :
    (job.answered target todo built reply).Progress entry := by
  cases reply with
  | ok =>
    obtain ⟨hall, hphase⟩ := h
    simp only [hp] at hphase
    exact ⟨hall, hphase⟩
  | refused | failed => exact h.unwind hp false
  | cancelled => exact h.unwind hp true

structure Continues (job job' : ReindexJob S) : Prop where
  alter : job'.alter = job.alter
  promoted : job'.promoted = job.promoted
  done : job'.phase = .ended .done ↔ job.phase = .ended .done

lemma continues_phase {phase : JobPhase} (hold : job.phase ≠ .ended .done) (hnew : phase ≠ .ended .done) :
    job.Continues { job with phase := phase } :=
  ⟨rfl, rfl, by simp [hold, hnew]⟩

lemma continues_advance (entry : IndexEntry S) : job.Continues (job.advance entry) := by
  unfold advance
  split
  · rename_i hp
    exact ⟨rfl, rfl, by simp [hp]⟩
  · rename_i hp
    split_ifs
    · exact ⟨rfl, rfl, by simp [hp]⟩
    · split <;> exact ⟨rfl, rfl, by simp [hp]⟩
  · rename_i canceled hp
    exact ⟨rfl, rfl, by cases canceled <;> simp [hp]⟩
  · rename_i hp
    exact ⟨rfl, rfl, by simp [hp]⟩
  · exact ⟨rfl, rfl, Iff.rfl⟩

lemma continues_unwind
    (hp : job.phase = .awaiting target todo built call) (cancelled : Bool) :
    job.Continues (job.unwind target built cancelled) := by
  unfold unwind
  split_ifs <;> exact ⟨rfl, rfl, by simp [hp]⟩

lemma continues_answered
    (hp : job.phase = .awaiting target todo built (.answered reply)) :
    job.Continues (job.answered target todo built reply) := by
  cases reply with
  | ok => exact ⟨rfl, rfl, by simp [answered, hp]⟩
  | refused | failed => exact continues_unwind hp false
  | cancelled => exact continues_unwind hp true

end ReindexJob

variable {ctx : SourceContext S}

namespace Reindexing

/-- Every unit of the index serves the definition that the registry stores. -/
def InSync (s : Reindexing S) : Prop := ∀ t ∈ s.entry.targets, (s.node t).resolved = s.entry.definition

/-- At the end of a job: all units serve what is stored now, or none was promoted and all serve what was
stored before. -/
def DefinitionMatches (s : Reindexing S) (before : Definition S) (job : ReindexJob S) : Prop :=
  s.InSync ∨ job.promoted = [] ∧ ∀ t ∈ s.entry.targets, (s.node t).resolved = before

structure JobAgrees (before : Definition S) (s : Reindexing S) (job : ReindexJob S) : Prop where
  nodes : ∀ t ∈ s.entry.targets,
    (s.node t).resolved = if t ∈ job.promoted then job.alter.getD before else before
  stored : s.entry.definition = if job.phase = .ended .done then job.alter.getD before else before
  progress : job.alter.isSome = true → job.Progress s.entry

lemma JobAgrees.matches {before : Definition S} {s : Reindexing S} {job : ReindexJob S} {state : JobEnd}
    (h : s.JobAgrees before job) (hended : job.phase = .ended state) : s.DefinitionMatches before job := by
  cases halter : job.alter with
  | none =>
    refine .inl (fun t ht => ?_)
    rw [h.nodes t ht, h.stored, halter, getD_none, ite_self, ite_self]
  | some definition =>
    obtain ⟨hall, hphase⟩ := h.progress (by rw [halter]; rfl)
    simp only [hended] at hphase
    cases state with
    | done =>
      refine .inl (fun t ht => ?_)
      rw [h.nodes t ht, h.stored, if_pos hended, if_pos]
      rw [hphase]
      exact hall t ht
    | failed | canceled =>
      refine .inr ⟨hphase, fun t ht => ?_⟩
      rw [h.nodes t ht, hphase, if_neg not_mem_nil]

/-- An alter's plan leaves no unit out, no promotion fails once a unit is promoted, nothing else moves the generation
or the version, and the commit persists. Whatever the job, nobody else changes the definition. -/
def Undisturbed (j : JobId) (s : Reindexing S) : ReindexEvent S → Prop
  | .create k alter => k = j → alter.isSome = true → s.entry.AllPlanned
  | .engage k => k = j → ∀ job ∈ s.jobs j, job.alter.isSome = true → job.promoted ≠ [] →
      ∀ t ∈ job.promotes, (s.node t).fence = false
  | .swap k result => ∀ job ∈ s.jobs k, job.alter.isSome = true →
      if k = j then (result = .done ∧ ∀ t ∈ job.promotes, (s.node t).staging.isSome = true) ∨
        (result = .failed ∧ job.promoted = [])
      else result = .failed
  | .cutover k persisted => ∀ job ∈ s.jobs k,
      if k = j then job.alter.isSome = true → persisted = true
      else job.alter = none ∧ ∀ mine ∈ s.jobs j, mine.alter = none
  | .change entry => entry.definition = s.entry.definition ∧ entry.targets = s.entry.targets ∧
      ∀ job ∈ s.jobs j, job.alter.isSome = true → entry.generation = s.entry.generation ∧
        entry.definitionVersion = s.entry.definitionVersion
  | _ => True

def Agrees (j : JobId) (before : Definition S) (s : Reindexing S) : Prop :=
  match s.jobs j with
  | none => s.entry.definition = before ∧ ∀ t ∈ s.entry.targets, (s.node t).resolved = before
  | some job => s.JobAgrees before job

section
variable {j k : JobId} {before : Definition S} {s s' : Reindexing S} {job job' : ReindexJob S}

lemma Agrees.of_job (h : s.Agrees j before) (hjob : s.jobs j = some job) : s.JobAgrees before job := by
  unfold Agrees at h
  rwa [hjob] at h

/-- The entry stays, and what the nodes serve. -/
def Serves (s s' : Reindexing S) : Prop :=
  s'.entry = s.entry ∧ ∀ t, (s'.node t).resolved = (s.node t).resolved

lemma Serves.refl : s.Serves s := ⟨rfl, fun _ => rfl⟩

lemma serves_setNode (hctx : ctx.resolved = (s.node t).resolved) : s.Serves (s.setNode t ctx) := by
  refine ⟨rfl, fun t' => ?_⟩
  rw [node_setNode]
  split_ifs with ht
  · rw [ht, hctx]
  · rfl

lemma JobAgrees.goOn (h : s.JobAgrees before job) (hs : s.Serves s') (hcont : job.Continues job')
    (hprogress : job.Progress s.entry → job.alter.isSome → job'.Progress s.entry) :
    s'.JobAgrees before job' := by
  obtain ⟨hentry, hnode⟩ := hs
  refine ⟨fun t ht => ?_, ?_, fun ha => ?_⟩
  · rw [hnode t, hcont.promoted, hcont.alter]
    exact h.nodes t (hentry ▸ ht)
  · rw [hentry, hcont.alter, h.stored]
    by_cases hdone : job.phase = .ended .done
    · rw [if_pos hdone, if_pos (hcont.done.mpr hdone)]
    · rw [if_neg hdone, if_neg (fun hd => hdone (hcont.done.mp hd))]
  · rw [hcont.alter] at ha
    exact hentry ▸ hprogress (h.progress ha) ha

lemma JobAgrees.promote (h : s.JobAgrees before job) {phase : JobPhase}
    (hctx : ctx.resolved = job.alter.getD (s.node target).resolved) (hold : job.phase ≠ .ended .done)
    (hnew : phase ≠ .ended .done)
    (hprogress : job.Progress s.entry → job.alter.isSome →
      Progress { job with promoted := job.promoted ++ [target], phase := phase } s.entry) :
    ((s.setNode target ctx).setJob k { job with
      promoted := job.promoted ++ [target], phase := phase }).JobAgrees before
      { job with promoted := job.promoted ++ [target], phase := phase } := by
  refine ⟨fun t ht => ?_, ?_, fun ha => hprogress (h.progress ha) ha⟩
  · rw [setJob_node, node_setNode]
    have hbefore := h.nodes t ht
    by_cases htarget : t = target
    · subst htarget
      rw [if_pos rfl, if_pos (mem_append_right _ mem_cons_self), hctx]
      cases halter : job.alter with
      | none => rwa [halter, getD_none, ite_self] at hbefore
      | some definition => rfl
    · rw [if_neg htarget, hbefore]
      simp [htarget]
  · simp only [setJob_entry, setNode_entry, if_neg hnew]
    rw [h.stored, if_neg hold]

section

variable (h : s.Agrees j before)
include h

lemma Agrees.other (hjobs : s'.jobs j = s.jobs j) (hs : s.Serves s') :
    s'.Agrees j before := by
  obtain ⟨hentry, hnode⟩ := hs
  unfold Agrees at h ⊢
  rw [hjobs, hentry]
  cases hj : s.jobs j with
  | none =>
    rw [hj] at h
    exact ⟨h.1, fun t ht => (hnode t).trans (h.2 t ht)⟩
  | some job =>
    rw [hj] at h
    exact ⟨fun t ht => (hnode t).trans (h.nodes t (hentry ▸ ht)), hentry ▸ h.stored, fun ha => hentry ▸ h.progress ha⟩

lemma Agrees.setJob (hjob : s.jobs k = some job) {s₁ : Reindexing S}
    (hjobs : s₁.jobs = s.jobs) (hs : s.Serves s₁) (hcont : job.Continues job')
    (hprogress : k = j → job.Progress s.entry → job.alter.isSome → job'.Progress s.entry) :
    (s₁.setJob k job').Agrees j before := by
  by_cases hk : k = j
  · subst hk
    have hagrees : (s₁.setJob k job').JobAgrees before job' := (h.of_job hjob).goOn hs hcont (hprogress rfl)
    unfold Agrees
    rwa [jobs_setJob, if_pos rfl]
  · refine h.other ?_ hs
    rw [jobs_setJob, if_neg (Ne.symm hk), hjobs]

lemma Agrees.turn (hjob : s.jobs k = some job) (hphase : job.phase = p)
    {s₁ : Reindexing S} (hjobs : s₁.jobs = s.jobs) (hs : s.Serves s₁) (hold : p ≠ .ended .done)
    (hnew : p' ≠ .ended .done)
    (hprogress : Progress { job with phase := p } s.entry → Progress { job with phase := p' } s.entry) :
    (s₁.setJob k { job with phase := p' }).Agrees j before := by
  subst hphase
  exact h.setJob hjob hjobs hs (continues_phase hold hnew) fun _ hp _ => hprogress hp

lemma Agrees.create {alter : Option (Definition S)}
    (hu : s.Undisturbed j (.create k alter)) (hnone : s.jobs k = none)
    (hplan : s.entry.planReindexShards s.index = .ok units) :
    (s.setJob k ⟨alter, units, false, 0, 0, false, [], .pending⟩).Agrees j before := by
  by_cases hk : k = j
  · subst hk
    unfold Agrees at h ⊢
    rw [hnone] at h
    rw [jobs_setJob, if_pos rfl]
    refine ⟨fun t ht => ?_, h.1, fun ha => ?_⟩
    · rw [if_neg not_mem_nil]
      exact h.2 t ht
    · exact ⟨planned_of_allPlanned (hu rfl ha) hplan, rfl⟩
  · exact h.other (by rw [jobs_setJob, if_neg (Ne.symm hk)]) .refl

lemma Agrees.finish [DecidableEq S] (st : Staged S) (ok : Bool) (reply : BuildReply) :
    ((s.setNode target ((s.node target).built st ok)).answer target st.job reply).Agrees j before := by
  have hresolved : ((s.node target).built st ok).resolved = (s.node target).resolved := by cases ok <;> rfl
  have hnode : (s.setNode target ((s.node target).built st ok)).Agrees j before :=
    h.other rfl (serves_setNode hresolved)
  unfold answer
  split
  · rename_i job hjob
    split
    · rename_i hphase
      split_ifs
      · exact h.turn hjob hphase rfl (serves_setNode hresolved) nofun nofun (fun hp => hp)
      · exact hnode
    · exact hnode
  · exact hnode

lemma Agrees.swap {result : PromoteResult}
    (hu : s.Undisturbed j (.swap k result)) (hjob : s.jobs k = some job)
    (hphase : job.phase = .promoting (target :: todo) true) (hresult : result ≠ .failed)
    (hswap : (s.node target).swap job.alter = some ctx) :
    ((s.setNode target ctx).setJob k { job with
      promoted := job.promoted ++ [target]
      phase := if result = .done then .promoting todo false else .unwinding (target :: todo) false }).Agrees j
      before := by
  have hctx : ctx.resolved = job.alter.getD (s.node target).resolved := by
    unfold SourceContext.swap at hswap
    split at hswap
    · cases hswap
    · rw [← some.inj hswap]
  have hold : job.phase ≠ .ended .done := by rw [hphase]; exact nofun
  by_cases hk : k = j
  · subst hk
    unfold Agrees
    rw [jobs_setJob, if_pos rfl]
    refine (h.of_job hjob).promote hctx hold (by split_ifs <;> exact nofun) ?_
    rintro ⟨hall, hp⟩ ha
    simp only [hphase] at hp
    have hallowed := hu job hjob ha
    rw [if_pos rfl] at hallowed
    rcases hallowed with ⟨rfl, -⟩ | ⟨hfailed, -⟩
    · refine ⟨hall, ?_, hp.2⟩
      rw [← hp.1, append_cons]
    · exact absurd hfailed hresult
  · -- another alter promotes nothing, and a plain reindex keeps the definition of the unit
    have hplain : job.alter = none := by
      by_contra hne
      have hallowed := hu job hjob (isSome_iff_ne_none.mpr hne)
      rw [if_neg hk] at hallowed
      exact hresult hallowed
    refine h.other ?_ ⟨rfl, (serves_setNode ?_).2⟩
    · rw [jobs_setJob, if_neg (Ne.symm hk), setNode_jobs]
    · rw [hctx, hplain, getD_none]

lemma Agrees.commit {persisted writes : Bool} {entry : IndexEntry S}
    (hu : s.Undisturbed j (.cutover k persisted)) (hjob : s.jobs k = some job) (hphase : job.phase = .cuttingOver)
    (hcommit : job.commit s.index s.entry = .ok (entry, writes)) :
    ({ s with entry := entry }.setJob k { job with phase := .ended .done }).Agrees j before := by
  obtain ⟨hdef, htargets⟩ := commit_ok hcommit
  have hold : job.phase ≠ .ended .done := by rw [hphase]; exact nofun
  have hallowed := hu job hjob
  by_cases hk : k = j
  · subst hk
    have hjobAgrees := h.of_job hjob
    have hstored := hjobAgrees.stored
    rw [if_neg hold] at hstored
    unfold Agrees
    rw [jobs_setJob, if_pos rfl]
    refine ⟨fun t ht => hjobAgrees.nodes t (htargets ▸ ht), ?_, fun ha => ?_⟩
    · rwa [if_pos rfl, ← hstored]
    · obtain ⟨hall, hp⟩ := hjobAgrees.progress ha
      simp only [hphase] at hp
      exact ⟨fun t ht => hall t (htargets ▸ ht), hp.1⟩
  · rw [if_neg hk] at hallowed
    rw [hallowed.1, getD_none] at hdef
    unfold Agrees at h ⊢
    rw [jobs_setJob, if_neg (Ne.symm hk)]
    cases hmine : s.jobs j with
    | none =>
      rw [hmine] at h
      exact ⟨hdef.trans h.1, fun t ht => h.2 t (htargets ▸ ht)⟩
    | some mine =>
      rw [hmine] at h
      refine ⟨fun t ht => h.nodes t (htargets ▸ ht), hdef.trans h.stored, fun ha => ?_⟩
      simp [hallowed.2 mine hmine] at ha

lemma Agrees.change {entry : IndexEntry S} (hu : s.Undisturbed j (.change entry)) :
    { s with entry := entry : Reindexing S }.Agrees j before := by
  obtain ⟨hdef, htargets, hcas⟩ := hu
  unfold Agrees at h ⊢
  cases hmine : s.jobs j with
  | none =>
    simp only [hmine] at h ⊢
    exact ⟨hdef.trans h.1, fun t ht => h.2 t (htargets ▸ ht)⟩
  | some mine =>
    simp only [hmine] at h ⊢
    refine ⟨fun t ht => h.nodes t (htargets ▸ ht), hdef.trans h.stored, fun ha => ?_⟩
    obtain ⟨hgen, hver⟩ := hcas mine hmine ha
    obtain ⟨hall, hp⟩ := h.progress ha
    refine ⟨fun t ht => hall t (htargets ▸ ht), ?_⟩
    unfold Captured at hp ⊢
    simp only [hgen, hver]
    exact hp

end

variable [DecidableEq S]

/-- Every undisturbed move keeps the definitions as the job makes them. -/
lemma Agrees.move {e : ReindexEvent S} (h : s.Agrees j before) (hu : s.Undisturbed j e) (hm : Moves s e s') :
    s'.Agrees j before := by
  cases hm with
  | create hnone hplan => exact h.create hu hnone hplan
  | advance hjob => exact h.setJob hjob rfl .refl (continues_advance s.entry) (fun _ hp _ => hp.advance)
  | refuse hjob hphase => exact h.turn hjob hphase rfl .refl nofun nofun (fun hp => hp)
  | claim hjob hphase hclaim =>
    unfold SourceContext.claim at hclaim
    split_ifs at hclaim
    cases hclaim
    exact h.turn hjob hphase rfl (serves_setNode rfl) nofun nofun (fun hp => hp)
  | finish _ => exact h.finish _ _ _
  | deliver hjob hphase => exact h.setJob hjob rfl .refl (continues_answered hphase) (fun _ hp _ => hp.answered hphase)
  | lose hjob hphase =>
    exact h.setJob hjob rfl .refl (continues_unwind hphase false)
      (fun _ hp _ => hp.unwind hphase false)
  | @fenced k job target todo hjob hphase hfence =>
    refine h.setJob hjob rfl .refl (continues_phase (by rw [hphase]; exact nofun) nofun) ?_
    rintro rfl ⟨hall, -⟩ ha
    -- a fence that is taken stops the job only before its first promotion
    refine ⟨hall, ?_⟩
    by_contra hne
    have hopen := hu rfl job hjob ha hne target (by simp [promotes, hphase])
    simp [hfence] at hopen
  | engage hjob hphase => exact h.turn hjob hphase rfl (serves_setNode rfl) nofun nofun (fun hp => hp)
  | @spoil k job target todo result hjob hphase hfailed =>
    refine h.setJob hjob rfl (serves_setNode rfl)
      (continues_phase (by rw [hphase]; exact nofun) nofun) ?_
    rintro rfl ⟨hall, -⟩ ha
    refine ⟨hall, ?_⟩
    have hallowed := hu job hjob ha
    rw [if_pos rfl] at hallowed
    rcases hallowed with ⟨rfl, hstaging⟩ | ⟨-, hnothing⟩
    · have hsome := hstaging target (by simp [promotes, hphase])
      rcases hfailed with hfailed | hnone
      · cases hfailed
      · simp [hnone] at hsome
    · exact hnothing
  | swap hjob hphase hresult hswap => exact h.swap hu hjob hphase hresult hswap
  | @discard k job target todo canceled handled hjob hphase =>
    cases handled with
    | true => exact h.turn hjob hphase rfl (serves_setNode rfl) nofun nofun (fun hp => hp)
    | false => exact h.turn hjob hphase rfl .refl nofun nofun (fun hp => hp)
  | @conflict k job persisted hjob hphase hcommit =>
    refine h.setJob hjob rfl .refl (continues_phase (by rw [hphase]; exact nofun) nofun) ?_
    rintro rfl ⟨-, hp⟩ ha
    simp only [hphase] at hp
    have hallowed := hu job hjob
    rw [if_pos rfl] at hallowed
    rcases hcommit with hlost | ⟨error, herror⟩
    · simp [hallowed ha] at hlost
    · exact absurd herror (commit_of_captured hp.2 error)
  | commit hjob hphase hcommit => exact h.commit hu hjob hphase hcommit
  | cancelJob hjob => exact h.setJob hjob rfl .refl ⟨rfl, rfl, Iff.rfl⟩ (fun _ hp _ => hp)
  | cancelBuild => exact h.other rfl (serves_setNode rfl)
  | change => exact h.change hu

/-- In every run in which nothing disturbs a job, its end leaves all units with the definition stored now, or
none promoted and all with the definition stored before. -/
theorem definition_matches_units (hnew : s.jobs j = none) (hsync : s.InSync) (hrun : Runs step (Undisturbed j) s s')
    (hjob : s'.jobs j = some job) {state : JobEnd} (hended : job.phase = .ended state) :
    s'.DefinitionMatches s.entry.definition job := by
  have hstart : s.Agrees j s.entry.definition := by
    unfold Agrees
    rw [hnew]
    exact ⟨rfl, hsync⟩
  have hend : s'.Agrees j s.entry.definition := by
    refine hrun.invariant hstart (fun s e hu h => ?_)
    rcases moves_of_step s e with hsame | hmove
    · rwa [hsame]
    · exact h.move hu hmove
  exact (hend.of_job hjob).matches hended

end

namespace TwoUnits

def definition (windowing : Option TimeWindowing) (schema : Nat) : Definition Nat := ⟨"docs", 2, windowing, schema⟩

def before (entry : IndexEntry Nat) : Reindexing Nat :=
  ⟨"docs", entry, fun _ => ⟨entry.definition, false, none, [], false, false⟩, fun _ => none⟩

def ordinal : IndexEntry Nat :=
  ⟨definition none 0, .active, (BTreeMap.empty.insert 0 ⟨some "a", []⟩).insert 1 ⟨some "b", []⟩, .empty, [0, 1], 0, 0⟩

def windows : IndexEntry Nat :=
  ⟨definition (some ⟨"ts", .daily, none⟩) 0, .active, .empty,
    (BTreeMap.empty.insert 0 ⟨⟨some "a", []⟩, none, none, false⟩).insert 1 ⟨⟨some "b", []⟩, none, none, true⟩, [], 0, 0⟩

def create (entry : IndexEntry Nat) : List (ReindexEvent Nat) :=
  [.create 0 (some { entry.definition with schema := 1 }), .advance 0]

def build (entry : IndexEntry Nat) (t : Target) : List (ReindexEvent Nat) :=
  [.advance 0, .arrive 0, .finish t ⟨0, { entry.definition with schema := 1 }⟩ true, .deliver 0]

def promote (result : PromoteResult) : List (ReindexEvent Nat) := [.engage 0, .swap 0 result]

def staged : List (ReindexEvent Nat) :=
  create ordinal ++ build ordinal ("a", .shard 0) ++ build ordinal ("b", .shard 1) ++ [.advance 0]

def altered : List (ReindexEvent Nat) :=
  staged ++ promote .done ++ promote .done ++ [.advance 0, .cutover 0 true]

def overtaken : List (ReindexEvent Nat) :=
  staged ++ promote .done ++ promote .done ++ [.advance 0, .change { ordinal with generation := 1 }, .cutover 0 true]

def halfway : List (ReindexEvent Nat) :=
  staged ++ promote .done ++ promote .failed ++ [.discard 0 true, .advance 0]

def coldWindow : List (ReindexEvent Nat) :=
  create windows ++ build windows ("a", .window 0) ++ [.advance 0] ++ promote .done ++ [.advance 0, .cutover 0 true]

def Diverges (entry : IndexEntry Nat) (events : List (ReindexEvent Nat)) (state : JobEnd) : Prop :=
  ∃ job, ((before entry).run events).jobs 0 = some job ∧ job.phase = .ended state ∧
    ¬ ((before entry).run events).DefinitionMatches entry.definition job

end TwoUnits

open TwoUnits

theorem alter_matches_two_shards : (before ordinal).InSync ∧ ∃ job, ((before ordinal).run altered).jobs 0 = some job ∧
      job.phase = .ended .done ∧ ((before ordinal).run altered).DefinitionMatches ordinal.definition job := by
  have hrun : Runs step (Undisturbed 0) (before ordinal) ((before ordinal).run altered) := by
    refine Runs.foldl .start altered ⟨?_, trivial, trivial, trivial, trivial, trivial, trivial, trivial, trivial, trivial,
      trivial, ?_, ?_, ?_, ?_, trivial, ?_, trivial⟩
    · exact fun _ _ => rfl
    · rintro - job hjob - hne
      cases hjob
      exact absurd rfl hne
    · rintro job hjob -
      cases hjob
      exact .inl ⟨rfl, fun t ht => by obtain rfl := some.inj ht; rfl⟩
    · rintro - job hjob - - t ht
      cases hjob
      cases ht
      rfl
    · rintro job hjob -
      cases hjob
      exact .inl ⟨rfl, fun t ht => by obtain rfl := some.inj ht; rfl⟩
    · intro job hjob
      rw [if_pos rfl]
      exact fun _ => rfl
  refine ⟨fun _ _ => rfl, _, rfl, rfl, ?_⟩
  exact definition_matches_units rfl (fun _ _ => rfl) hrun rfl rfl

/-- A generation that was moved, a promotion that fails after another one, and a cold window. -/
theorem definition_diverges :
    (before ordinal).InSync ∧ Diverges ordinal overtaken .failed ∧ Diverges ordinal halfway .failed ∧
      (before windows).InSync ∧
      Diverges windows coldWindow .done := by
  refine ⟨fun _ _ => rfl, ⟨_, rfl, rfl, ?_⟩, ⟨_, rfl, rfl, ?_⟩, fun _ _ => rfl, ⟨_, rfl, rfl, ?_⟩⟩
  · rintro (h | ⟨h, -⟩)
    · exact absurd (h ("a", .shard 0) (by decide)) (by decide)
    · cases h
  · rintro (h | ⟨h, -⟩)
    · exact absurd (h ("a", .shard 0) (by decide)) (by decide)
    · cases h
  · rintro (h | ⟨h, -⟩)
    · exact absurd (h ("b", .window 1) (by decide)) (by decide)
    · cases h

end Reindexing

end GrowlerDB.ControlPlane
