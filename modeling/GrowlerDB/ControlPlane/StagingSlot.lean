import GrowlerDB.ControlPlane.ReindexJob
import GrowlerDB.Lib.Results
import Mathlib.Data.List.Nodup

namespace GrowlerDB.ControlPlane
open Core Lib List Option UnitId

variable {index : String} {units : List Target} {j : JobId}

variable {S : Type}

namespace IndexEntry

lemma primaryEndpoint_ok {assignment : ShardAssignment} {unit : UnitId} {target : Target}
    (h : primaryEndpoint index assignment unit = .ok target) :
    assignment.primary = some target.1 ∧ target.2 = unit := by
  unfold primaryEndpoint at h
  split at h
  · cases h
  · split_ifs at h
    cases h
    exact ⟨‹_›, rfl⟩

lemma planned_units {entry : IndexEntry S} (h : entry.planReindexShards index = .ok units) :
    units.map Prod.snd = if entry.definition.windowing.isSome
      then (entry.windows.entries.filter (fun e => !e.2.cold)).map (fun e => .window e.1)
      else entry.shards.entries.map (fun e => .shard e.1) := by
  unfold planReindexShards at h
  split_ifs at h ⊢ with hw hs
  · dsimp only at h
    split at h
    · cases h
    · cases h
    · cases h
      exact map_of_mapM ‹_› (fun _ _ hf => (primaryEndpoint_ok hf).2)
  · exact map_of_mapM h (fun _ _ hf => (primaryEndpoint_ok hf).2)

lemma planned_nodup {entry : IndexEntry S} (h : entry.planReindexShards index = .ok units) : units.Nodup := by
  apply Nodup.of_map Prod.snd
  rw [planned_units h]
  have hkeys : ∀ {K V : Type} [LinearOrder K] (m : BTreeMap K V) (p : K × V → Bool) (unit : K → UnitId),
      Function.Injective unit → ((m.entries.filter p).map (fun e => unit e.1)).Nodup := by
    intro K V _ m p unit hinj
    refine pairwise_map.mpr ((m.sorted.filter p).imp (fun {a b} hab => ?_))
    exact fun he => (ne_of_lt hab) (hinj he)
  split_ifs
  · exact hkeys entry.windows _ window (fun _ _ he => window.inj he)
  · have hall := hkeys entry.shards (fun _ => true) shard (fun _ _ he => shard.inj he)
    rwa [filter_true] at hall

end IndexEntry

variable {job : ReindexJob S}

namespace ReindexJob

def holds (job : ReindexJob S) : List Target :=
  match job.phase with
  | .building _ built => built
  | .awaiting target _ built (.answered .ok) => built ++ [target]
  | .awaiting _ _ built _ => built
  | .unwinding todo _ => todo
  | .promoting todo _ => todo
  | _ => []

def builds (job : ReindexJob S) : Option Target :=
  match job.phase with
  | .awaiting target _ _ .running => some target
  | _ => none

def awaits (job : ReindexJob S) : Bool :=
  match job.phase with
  | .awaiting _ _ _ _ => true
  | _ => false

def building (job : ReindexJob S) : Bool :=
  match job.phase with
  | .awaiting _ _ _ .running | .awaiting _ _ _ (.answered .ok) => true
  | _ => false

def Shape (job : ReindexJob S) : Prop :=
  job.units.Nodup ∧ match job.phase with
    | .building todo built => built ++ todo = job.units
    | .awaiting target todo built call => built ++ target :: todo = job.units ∧
        job.cancelRequested = false ∧ call ≠ .answered .cancelled
    | .unwinding todo _ => todo.Nodup
    | .promoting todo _ => todo.Nodup
    | _ => True

lemma exists_phase (h : job.phase = p) : ∃ job' : ReindexJob S, job = { job' with phase := p } := ⟨job, by rw [← h]⟩

lemma Shape.nodup (h : job.Shape) : job.holds.Nodup := by
  obtain ⟨hunits, hphase⟩ := h
  unfold holds
  split <;> simp only [*] at hphase
  · rw [← hphase] at hunits
    exact hunits.of_append_left
  · rw [← hphase.1, append_cons] at hunits
    exact hunits.of_append_left
  · rw [← hphase.1] at hunits
    exact hunits.of_append_left
  · exact hphase
  · exact hphase
  · exact nodup_nil

end ReindexJob

variable {s : Reindexing S}

namespace Reindexing

def holds (s : Reindexing S) (j : JobId) : List Target := ((s.jobs j).map ReindexJob.holds).getD []

def builds (s : Reindexing S) (j : JobId) : Option Target := (s.jobs j).bind ReindexJob.builds

lemma holds_of (h : s.jobs j = some job) : s.holds j = job.holds := by
  simp [holds, h]

lemma builds_of (h : s.jobs j = some job) : s.builds j = job.builds := by
  simp [builds, h]

/-- A build slot as the jobs that hold it and those that build in it know it: free, populated for one job, or
filled for one job. -/
inductive Slot (holds builds : JobId → Prop) (ctx : SourceContext S) : Prop
  | free (hh : ∀ k, ¬ holds k) (hb : ∀ k, ¬ builds k) (staging : ctx.staging = none) (running : ctx.running = [])
  | populating (hh : ∀ k, ¬ holds k) (hb : ∀ k, builds k ↔ k = x.job) (staged : ctx.staged = true)
    (staging : ctx.staging = none) (running : ctx.running = [x]) (quiet : ctx.cancel = false)
  | filled (hh : ∀ k, holds k ↔ k = x.job) (hb : ∀ k, ¬ builds k) (staged : ctx.staged = true)
    (staging : ctx.staging = some x) (running : ctx.running = [])

structure SlotsKept (s : Reindexing S) : Prop where
  slot : ∀ t, Slot (t ∈ s.holds ·) (s.builds · = some t) (s.node t)
  shape : ∀ j job, s.jobs j = some job → job.Shape

section
variable {t : Target}

lemma Slot.staging_iff {ctx : SourceContext S} (h : Slot held building ctx) (hst : ctx.staging = some st) (k : JobId) :
    held k ↔ k = st.job := by
  cases h with
  | free _ _ staging | populating _ _ _ staging =>
    rw [staging] at hst
    cases hst
  | filled hh _ _ staging =>
    rw [staging] at hst
    cases hst
    exact hh k

lemma Slot.congr {ctx ctx' : SourceContext S} (h : Slot held building ctx) (hstaged : ctx'.staged = ctx.staged)
    (hstaging : ctx'.staging = ctx.staging) (hrunning : ctx'.running = ctx.running)
    (hcancel : ctx.running ≠ [] → ctx'.cancel = ctx.cancel) : Slot held building ctx' := by
  cases h with
  | free hh hb staging running => exact .free hh hb (hstaging.trans staging) (hrunning.trans running)
  | populating hh hb staged staging running quiet =>
    exact .populating hh hb (hstaged.trans staged) (hstaging.trans staging) (hrunning.trans running)
      ((hcancel (by simp [running])).trans quiet)
  | filled hh hb staged staging running =>
    exact .filled hh hb (hstaged.trans staged) (hstaging.trans staging) (hrunning.trans running)

lemma holds_setJob (job : ReindexJob S) (k : JobId) :
    (s.setJob j job).holds k = if k = j then job.holds else s.holds k := by
  rw [holds, jobs_setJob]
  split_ifs <;> rfl

lemma builds_setJob (job : ReindexJob S) (k : JobId) :
    (s.setJob j job).builds k = if k = j then job.builds else s.builds k := by
  rw [builds, jobs_setJob]
  split_ifs <;> rfl

lemma shape_setJob (hshape : job.Shape) (h : ∀ k job, s.jobs k = some job → job.Shape) (k : JobId)
    (job' : ReindexJob S) (hjob : (s.setJob j job).jobs k = some job') : job'.Shape := by
  rw [jobs_setJob] at hjob
  split_ifs at hjob
  · cases hjob
    exact hshape
  · exact h k job' hjob

namespace SlotsKept

lemma setJob (h : s.SlotsKept) (hholds : job.holds = s.holds j) (hbuilds : job.builds = s.builds j)
    (hshape : job.Shape) : (s.setJob j job).SlotsKept := by
  have hh : (s.setJob j job).holds = s.holds := by
    funext k
    rw [holds_setJob, hholds]
    exact ite_eq_right_iff.mpr fun hk => hk ▸ rfl
  have hb : (s.setJob j job).builds = s.builds := by
    funext k
    rw [builds_setJob, hbuilds]
    exact ite_eq_right_iff.mpr fun hk => hk ▸ rfl
  refine ⟨fun t => ?_, shape_setJob hshape h.shape⟩
  rw [hh, hb]
  exact h.slot t

/-- One job goes on, and only the slot `t` may change. -/
lemma setSlot (h : s.SlotsKept) (hshape : job.Shape) (hholds : ∀ t', t' ≠ t → (t' ∈ job.holds ↔ t' ∈ s.holds j))
    (hbuilds : ∀ t', t' ≠ t → (job.builds = some t' ↔ s.builds j = some t'))
    (hslot : Slot (fun k => t ∈ if k = j then job.holds else s.holds k)
      (fun k => (if k = j then job.builds else s.builds k) = some t) ctx) :
    ((s.setNode t ctx).setJob j job).SlotsKept := by
  constructor
  · intro t'
    simp only [holds_setJob, builds_setJob, setJob_node, node_setNode]
    by_cases ht : t' = t
    · subst ht
      rw [if_pos rfl]
      exact hslot
    · rw [if_neg ht]
      have hh : (fun k => t' ∈ if k = j then job.holds else s.holds k) = (t' ∈ s.holds ·) := by
        funext k
        split_ifs with hk
        · rw [hk, hholds t' ht]
        · rfl
      have hb : (fun k => (if k = j then job.builds else s.builds k) = some t') = (s.builds · = some t') := by
        funext k
        split_ifs with hk
        · rw [hk, hbuilds t' ht]
        · rfl
      exact hh ▸ hb ▸ h.slot t'
  · exact shape_setJob hshape h.shape

lemma setNode (h : s.SlotsKept) (hstaged : ctx.staged = (s.node t).staged)
    (hstaging : ctx.staging = (s.node t).staging) (hrunning : ctx.running = (s.node t).running)
    (hcancel : (s.node t).running ≠ [] → ctx.cancel = (s.node t).cancel) : (s.setNode t ctx).SlotsKept := by
  refine ⟨fun t' => ?_, h.shape⟩
  rw [node_setNode]
  split_ifs with ht
  · exact ht ▸ (h.slot t).congr hstaged hstaging hrunning hcancel
  · exact h.slot t'

end SlotsKept

end

/-- The calls of a run are answered as their nodes acted, every DISCARD is handled, and a cancel meets no
BUILD: not the wait of its own job, not a build on a node. -/
def Orderly (s : Reindexing S) : ReindexEvent S → Prop
  | .cancelJob j => ∀ job ∈ s.jobs j, job.awaits = false
  | .cancelBuild target => (s.node target).running = []
  | .lose j => ∀ job ∈ s.jobs j, job.building = false
  | .swap _ result => result ≠ .lost
  | .discard _ handled => handled = true
  | _ => True

instance (s : Reindexing S) (e : ReindexEvent S) : Decidable (s.Orderly e) := by
  cases e <;> unfold Orderly <;> infer_instance

def Idle (s : Reindexing S) : Prop :=
  (∀ j, s.jobs j = none) ∧ ∀ t, (s.node t).staged = false ∧ (s.node t).staging = none ∧ (s.node t).running = []

lemma Idle.slotsKept (h : s.Idle) : s.SlotsKept := by
  refine ⟨fun t => .free (fun k => ?_) (fun k => ?_) (h.2 t).2.1 (h.2 t).2.2, fun j job hjob => ?_⟩
  · simp [holds, h.1 k]
  · simp [builds, h.1 k]
  · simp [h.1 j] at hjob

end Reindexing

namespace ReindexJob

lemma advance_keeps (entry : IndexEntry S) (h : job.Shape) :
    (job.advance entry).holds = job.holds ∧ (job.advance entry).builds = job.builds ∧
      (job.advance entry).Shape := by
  have hnodup := h.nodup
  obtain ⟨hunits, hphase⟩ := h
  unfold advance
  split
  · rename_i hp
    exact ⟨by simp [holds, hp], by simp [builds, hp], hunits, by simp⟩
  · rename_i todo built hp
    simp only [hp] at hphase
    have hheld : job.holds = built := by simp [holds, hp]
    have hbuilds : job.builds = none := by simp [builds, hp]
    rw [hheld] at hnodup ⊢
    rw [hbuilds]
    split_ifs with hc
    · exact ⟨rfl, rfl, hunits, hnodup⟩
    · split
      · exact ⟨rfl, rfl, hunits, hphase, by simpa using hc, nofun⟩
      · rw [append_nil] at hphase
        exact ⟨hphase.symm, rfl, hunits, hunits⟩
  · rename_i hp
    exact ⟨by simp [holds, hp], by simp [builds, hp], hunits, trivial⟩
  · rename_i hp
    exact ⟨by simp [holds, hp], by simp [builds, hp], hunits, trivial⟩
  · exact ⟨rfl, rfl, hunits, hphase⟩

lemma unwind_keeps {target : Target} {todo built : List Target} {call : BuildCall} (h : job.Shape)
    (hp : job.phase = .awaiting target todo built call) :
    (job.unwind target built false).holds = built ∧ (job.unwind target built false).builds = none ∧
      (job.unwind target built false).Shape := by
  obtain ⟨hunits, hphase⟩ := h
  simp only [hp] at hphase
  have hnodup : built.Nodup := by
    rw [← hphase.1] at hunits
    exact hunits.of_append_left
  simp only [unwind, hphase.2.1, Bool.or_false, Bool.false_eq_true, if_false]
  exact ⟨rfl, rfl, hunits, hnodup⟩

lemma answered_keeps {target : Target} {todo built : List Target} {reply : BuildReply} (h : job.Shape)
    (hp : job.phase = .awaiting target todo built (.answered reply)) :
    (job.answered target todo built reply).holds = job.holds ∧
      (job.answered target todo built reply).builds = job.builds ∧
      (job.answered target todo built reply).Shape := by
  have hbuilds : job.builds = none := by simp [builds, hp]
  have hunwind := unwind_keeps h hp
  obtain ⟨hunits, hphase⟩ := h
  simp only [hp] at hphase
  rw [hbuilds]
  cases reply with
  | ok =>
    have hheld : job.holds = built ++ [target] := by simp [holds, hp]
    rw [hheld]
    have hplan : (built ++ [target]) ++ todo = job.units := by rw [← hphase.1, ← append_cons]
    exact ⟨rfl, rfl, hunits, hplan⟩
  | refused | failed =>
    have hheld : job.holds = built := by simp [holds, hp]
    rwa [hheld]
  | cancelled => exact absurd rfl hphase.2.2

end ReindexJob

namespace Reindexing.SlotsKept

variable {target : Target} {todo built : List Target}

section

variable (h : s.SlotsKept)
include h

lemma setEntry (entry : IndexEntry S) : { s with entry := entry : Reindexing S }.SlotsKept :=
  ⟨h.slot, h.shape⟩

lemma setFence (t : Target) (fence : Bool) :
    (s.setNode t { s.node t with fence := fence }).SlotsKept :=
  h.setNode rfl rfl rfl (fun _ => rfl)

lemma finish [DecidableEq S] (hrunning : st ∈ (s.node target).running)
    (ok : Bool) : ((s.setNode target ((s.node target).built st ok)).answer target st.job
      (if ok then .ok else if (s.node target).cancel then .cancelled else .failed)).SlotsKept := by
  cases h.slot target with
  | free _ _ _ running | filled _ _ _ _ running =>
    rw [running] at hrunning
    cases hrunning
  | populating hh hb staged staging running quiet =>
    rw [running] at hrunning
    obtain rfl := mem_singleton.mp hrunning
    have hbuilds := (hb st.job).mpr rfl
    obtain ⟨job, hjob, hjobBuilds⟩ := bind_eq_some_iff.mp hbuilds
    obtain ⟨todo, built, hphase⟩ : ∃ todo built, job.phase = .awaiting target todo built .running := by
      unfold ReindexJob.builds at hjobBuilds
      split at hjobBuilds
      · cases hjobBuilds
        exact ⟨_, _, ‹_›⟩
      · cases hjobBuilds
    have hheld : s.holds st.job = built := by rw [holds_of hjob]; simp [ReindexJob.holds, hphase]
    have hshape := h.shape st.job job hjob
    simp only [ReindexJob.Shape, hphase] at hshape
    simp only [answer, setNode_jobs, hjob, hphase, if_true, quiet, Bool.false_eq_true, if_false]
    apply h.setSlot
    · cases ok <;> exact ⟨hshape.1, hshape.2.1, hshape.2.2.1, nofun⟩
    · intro t' ht'
      cases ok <;> simp [hheld, ReindexJob.holds, ht']
    · intro t' ht'
      simp [hbuilds, ReindexJob.builds, ht'.symm]
    · have hnone : ∀ k, ¬ (if k = st.job then none else s.builds k) = some target := by
        intro k
        split_ifs with hk
        · exact nofun
        · exact mt (hb k).mp hk
      cases ok with
      | true =>
        refine .filled (x := st) (fun k => ?_) hnone staged rfl (by simp [SourceContext.built, running])
        by_cases hk : k = st.job <;> simp [hk, ReindexJob.holds, hh]
      | false =>
        refine .free (fun k => ?_) hnone staging (by simp [SourceContext.built, running])
        have hout := hh k
        simp only [Bool.false_eq_true, if_false]
        split_ifs with hk
        · rwa [hk, hheld] at hout
        · exact hout

variable (hjob : s.jobs j = some job)
include hjob

lemma goOn (hkeeps : job'.holds = job.holds ∧ job'.builds = job.builds ∧ job'.Shape) : (s.setJob j job').SlotsKept :=
  h.setJob (by rw [holds_of hjob, hkeeps.1]) (by rw [builds_of hjob, hkeeps.2.1]) hkeeps.2.2

lemma claim (hphase : job.phase = .awaiting target todo built .sent)
    (hst : st.job = j) (hclaim : (s.node target).claim st = some ctx) :
    ((s.setNode target ctx).setJob j { job with phase := .awaiting target todo built .running }).SlotsKept := by
  unfold SourceContext.claim at hclaim
  split_ifs at hclaim with hstaged
  cases hclaim
  have hheld : s.holds j = built := by rw [holds_of hjob]; simp [ReindexJob.holds, hphase]
  have hbuilds : s.builds j = none := by rw [builds_of hjob]; simp [ReindexJob.builds, hphase]
  have hshape := h.shape j job hjob
  simp only [ReindexJob.Shape, hphase] at hshape
  cases h.slot target with
  | populating _ _ staged | filled _ _ staged => exact absurd staged hstaged
  | free hh hb staging running =>
    apply h.setSlot (j := j)
    · exact ⟨hshape.1, hshape.2.1, hshape.2.2.1, nofun⟩
    · exact fun t' _ => by rw [hheld]; rfl
    · exact fun t' ht' => by simp [hbuilds, ReindexJob.builds, ht'.symm]
    · refine .populating (x := st) (fun k => ?_) (fun k => ?_) rfl rfl (by rw [running]) rfl
      · have hout := hh k
        split_ifs with hk
        · rwa [hk, hheld] at hout
        · exact hout
      · have hout := hb k
        split_ifs with hk <;> simp_all [ReindexJob.builds]

lemma release (hheld : job.holds = target :: todo)
    (hbuilds : job.builds = none) (hstaging : ctx.staging = none)
    (hrunning : ctx.running = (s.node target).running) (hholds' : job'.holds = todo)
    (hbuilds' : job'.builds = none) (hshape' : job'.Shape) :
    ((s.setNode target ctx).setJob j job').SlotsKept := by
  have hin : target ∈ s.holds j := by rw [holds_of hjob, hheld]; exact mem_cons_self
  have hnodup := (h.shape j job hjob).nodup
  rw [hheld, nodup_cons] at hnodup
  cases h.slot target with
  | free hh | populating hh => exact absurd hin (hh j)
  | filled hh hb _ _ running =>
    obtain rfl := (hh j).mp hin
    apply h.setSlot hshape'
    · intro t' ht'
      rw [holds_of hjob, hheld, hholds']
      simp [ht']
    · intro t' _
      rw [builds_of hjob, hbuilds, hbuilds']
    · refine .free (fun k => ?_) (fun k => ?_) hstaging (hrunning.trans running)
      · split_ifs with hk
        · rw [hholds']
          exact hnodup.1
        · exact mt (hh k).mp hk
      · split_ifs with hk
        · rw [hbuilds']
          exact nofun
        · exact hb k

end

variable [DecidableEq S] {s' : Reindexing S}

lemma move {e : ReindexEvent S} (h : s.SlotsKept) (ho : s.Orderly e) (hm : Moves s e s') : s'.SlotsKept := by
  cases hm with
  | create hnone hplan =>
    exact h.setJob (by simp [holds, hnone, ReindexJob.holds]) (by simp [builds, hnone, ReindexJob.builds])
      ⟨IndexEntry.planned_nodup hplan, trivial⟩
  | advance hjob => exact h.goOn hjob (ReindexJob.advance_keeps s.entry (h.shape _ _ hjob))
  | refuse hjob hphase =>
    obtain ⟨job, rfl⟩ := ReindexJob.exists_phase hphase
    have hshape := h.shape _ _ hjob
    exact h.goOn hjob ⟨rfl, rfl, hshape.1, hshape.2.1, hshape.2.2.1, nofun⟩
  | claim hjob hphase hclaim => exact h.claim hjob hphase rfl hclaim
  | finish hrunning => exact h.finish hrunning _
  | deliver hjob hphase => exact h.goOn hjob (ReindexJob.answered_keeps (h.shape _ _ hjob) hphase)
  | @lose j job target todo built call hjob hphase =>
    -- a BUILD that its node works on or has done is not lost, so nothing is staged for it
    have hbuilding := ho job hjob
    obtain ⟨hheld, hbuilds, hshape⟩ := ReindexJob.unwind_keeps (h.shape _ _ hjob) hphase
    obtain ⟨job, rfl⟩ := ReindexJob.exists_phase hphase
    refine h.goOn hjob ⟨hheld.trans ?_, hbuilds.trans ?_, hshape⟩
    · unfold ReindexJob.building at hbuilding
      unfold ReindexJob.holds
      split at hbuilding <;> simp_all
    · unfold ReindexJob.building at hbuilding
      unfold ReindexJob.builds
      split at hbuilding <;> simp_all
  | fenced hjob hphase _ =>
    obtain ⟨job, rfl⟩ := ReindexJob.exists_phase hphase
    have hshape := h.shape _ _ hjob
    exact h.goOn hjob ⟨rfl, rfl, hshape⟩
  | engage hjob hphase | spoil hjob hphase _ =>
    obtain ⟨job, rfl⟩ := ReindexJob.exists_phase hphase
    have hshape := h.shape _ _ hjob
    exact goOn (h.setFence _ _) hjob ⟨rfl, rfl, hshape⟩
  | @swap j job target todo result ctx hjob hphase hresult hswap =>
    have hdone : result = .done := by
      cases result with
      | done => rfl
      | lost => exact absurd rfl ho
      | failed => exact absurd rfl hresult
    subst hdone
    obtain ⟨job, rfl⟩ := ReindexJob.exists_phase hphase
    have hshape := h.shape _ _ hjob
    unfold SourceContext.swap at hswap
    split at hswap
    · cases hswap
    · cases hswap
      exact h.release hjob rfl rfl rfl rfl rfl rfl ⟨hshape.1, hshape.2.of_cons⟩
  | @discard j job target todo canceled handled hjob hphase =>
    obtain rfl : handled := ho
    obtain ⟨job, rfl⟩ := ReindexJob.exists_phase hphase
    have hshape := h.shape _ _ hjob
    exact h.release hjob rfl rfl rfl rfl rfl rfl ⟨hshape.1, hshape.2.of_cons⟩
  | conflict hjob hphase _ =>
    obtain ⟨job, rfl⟩ := ReindexJob.exists_phase hphase
    exact h.goOn hjob ⟨rfl, rfl, (h.shape _ _ hjob).1, trivial⟩
  | @commit j job persisted writes entry hjob hphase hcommit =>
    obtain ⟨job, rfl⟩ := ReindexJob.exists_phase hphase
    exact goOn (h.setEntry entry) hjob ⟨rfl, rfl, (h.shape _ _ hjob).1, trivial⟩
  | @cancelJob j job hjob =>
    have hawaits := ho job hjob
    have hshape := h.shape _ _ hjob
    refine h.goOn hjob ⟨rfl, rfl, hshape.1, ?_⟩
    have hphase := hshape.2
    unfold ReindexJob.awaits at hawaits
    cases hp : job.phase <;> simp_all
  | cancelBuild =>
    have hidle : (s.node _).running = [] := ho
    exact h.setNode rfl rfl rfl (fun hne => absurd hidle hne)
  | change => exact h.setEntry _

end Reindexing.SlotsKept

namespace Reindexing

variable {s' : Reindexing S}

def discards (s : Reindexing S) : ReindexEvent S → Option (JobId × Target)
  | .discard j true =>
    match (s.jobs j).map ReindexJob.phase with
    | some (.unwinding (target :: _) _) => some (j, target)
    | _ => none
  | .arrive j =>
    match (s.jobs j).map ReindexJob.phase with
    | some (.awaiting target _ _ .sent) => if (s.node target).staged then none else some (j, target)
    | _ => none
  | _ => none

/-- No job that failed or was canceled left a generation it built, and what an event may remove was built for
the job that removes it. -/
def CleansUp (s : Reindexing S) : Prop :=
  (∀ j job, s.jobs j = some job → job.phase = .ended .failed ∨ job.phase = .ended .canceled →
    ∀ t, ∀ st ∈ (s.node t).staging, st.job ≠ j) ∧
  ∀ e j t, s.discards e = some (j, t) → ∀ st ∈ (s.node t).staging, st.job = j

lemma SlotsKept.cleansUp (h : s.SlotsKept) : s.CleansUp := by
  constructor
  · rintro j job hjob hended t st hst rfl
    have hin := ((h.slot t).staging_iff hst st.job).mpr rfl
    rw [holds_of hjob, ReindexJob.holds] at hin
    rcases hended with hp | hp <;> rw [hp] at hin <;> cases hin
  · intro e j t he st hst
    unfold discards at he
    split at he
    · split at he
      · rename_i hphase
        obtain ⟨job, hjob, hp⟩ := map_eq_some_iff.mp hphase
        cases he
        refine (((h.slot _).staging_iff hst _).mp ?_).symm
        rw [holds_of hjob, ReindexJob.holds, hp]
        exact mem_cons_self
      · cases he
    · split at he
      · split_ifs at he with hstaged
        cases he
        cases h.slot _ with
        | free _ _ staging =>
          rw [staging] at hst
          cases hst
        | populating _ _ staged | filled _ _ staged => exact absurd staged hstaged
      · cases he
    · cases he

variable [DecidableEq S]

lemma SlotsKept.step (h : s.SlotsKept) (ho : s.Orderly e) : (s.step e).SlotsKept := by
  rcases moves_of_step s e with hsame | hmove
  · rwa [hsame]
  · exact h.move ho hmove

/-- In every orderly run each job removes what it built, and nothing else. -/
theorem jobs_clean_up (h0 : s.Idle) (hrun : Runs step Orderly s s') : s'.CleansUp :=
  (hrun.invariant h0.slotsKept (fun _ _ ho h => h.step ho)).cleansUp

namespace OneShard

def definition : Definition Nat := ⟨"docs", 1, none, 0⟩

def target : Target := ("a", .shard 0)

def idle : Reindexing Nat :=
  ⟨"docs", ⟨definition, .active, BTreeMap.empty.insert 0 ⟨some "a", []⟩, .empty, [0], 0, 0⟩,
    fun _ => ⟨definition, false, none, [], false, false⟩, fun _ => none⟩

lemma idle_idle : idle.Idle := ⟨fun _ => rfl, fun _ => ⟨rfl, rfl, rfl⟩⟩

def built (j : JobId) : List (ReindexEvent Nat) :=
  [.create j none, .advance j, .advance j, .arrive j, .finish target ⟨j, definition⟩ true]

def unpromoted : List (ReindexEvent Nat) :=
  built 0 ++ [.deliver 0, .advance 0, .engage 0, .swap 0 .failed, .discard 0 true, .advance 0]

def stolen : List (ReindexEvent Nat) :=
  built 0 ++ [.deliver 0, .create 1 none, .advance 1, .advance 1, .arrive 1, .cancelJob 1, .deliver 1]

def abandoned : List (ReindexEvent Nat) := built 0 ++ [.lose 0, .advance 0]

end OneShard

open OneShard

theorem failed_promotion_cleaned : idle.Idle ∧ (idle.run unpromoted).CleansUp :=
  ⟨idle_idle, jobs_clean_up idle_idle
    (Runs.foldl .start unpromoted (by decide))⟩

/-- The canceled job is about to discard what the other one built; and a job fails and leaves what it built. -/
theorem jobs_leave_and_steal :
    ¬ (idle.run stolen).CleansUp ∧ ¬ (idle.run abandoned).CleansUp := by
  constructor
  · intro h
    have hsame := h.2 (.discard 1 true) 1 target rfl ⟨0, definition⟩ rfl
    cases hsame
  · intro h
    exact h.1 0 _ rfl (.inl rfl) target ⟨0, definition⟩ rfl rfl

end Reindexing

end GrowlerDB.ControlPlane
