import GrowlerDB.Index.ShardWrite
import GrowlerDB.Lib.Results

namespace GrowlerDB.Index
open Core Lib Replay List Shard HashOrder

variable {K : Type} [DecidableEq K] {T : Tantivy K (Document K)} {log : Changelog K}
  {endOf : String → SourceCheckpoint} {Q : K → Prop}

/-- The batch carries the changes of the window `(from, checkpoint]`, and its id names the
window's end: the connector derives the id from the window. -/
structure Covers (log : Changelog K) (endOf : String → SourceCheckpoint) (b : CommitBatch K) :
    Prop where
  hasEnd : log.Has b.checkpoint
  hasFrom : ∀ f, b.fromCheckpoint = some f → log.Has f
  forward : position b.fromCheckpoint < position (some b.checkpoint)
  named : endOf b.batchId = b.checkpoint
  window : ∀ k, lastChange b.changes k = lastChange
    (between log.entries (position b.fromCheckpoint) (position (some b.checkpoint))) k

def Stale (c : WithBot Int) (s : StagedRef K) : Prop :=
  position (some s.checkpoint) ≤ c ∧ (s.fromCheckpoint = none → position (some s.checkpoint) < c)

/-- The changes leave each key of `Q` its last change of a window that ends at `t` and starts no
later than `c`. -/
def Brings (log : Changelog K) (Q : K → Prop) (c t : WithBot Int)
    (changes : List (K × Option (Document K))) : Prop :=
  ∀ k, Q k → ∃ lo ≤ c, lastChange changes k = lastChange (between log.entries lo t) k

/-- A staged batch against a shard at `c`: skipped by its id, stale, or, if the shard has reached its start, the
changes that bring the keys of `Q` to its end. -/
structure StagedOk (log : Changelog K) (endOf : String → SourceCheckpoint) (Q : K → Prop) (c : WithBot Int)
    (s : StagedRef K) : Prop where
  hasEnd : log.Has s.checkpoint
  hasFrom : ∀ f, s.fromCheckpoint = some f → log.Has f
  named : endOf s.batchId = s.checkpoint
  skipped : s.alreadyApplied = true → position (some s.checkpoint) ≤ c
  content : s.alreadyApplied = false → Stale c s ∨ ((s.changes.map Prod.fst).Nodup ∧
    Brings log Q (max (position s.fromCheckpoint) c) (position (some s.checkpoint)) s.changes)

lemma StagedOk.mono (h : StagedOk log endOf Q c s) (hle : c ≤ c') : StagedOk log endOf Q c' s := by
  refine ⟨h.hasEnd, h.hasFrom, h.named, fun ha => (h.skipped ha).trans hle, fun ha => (h.content ha).imp ?_ ?_⟩
  · rintro ⟨he, hn⟩
    exact ⟨he.trans hle, fun hf => (hn hf).trans_le hle⟩
  · rintro ⟨hnd, hbrings⟩
    refine ⟨hnd, fun k hk => ?_⟩
    obtain ⟨lo, hlo, hlast⟩ := hbrings k hk
    exact ⟨lo, hlo.trans (max_le_max_left _ hle), hlast⟩

/-- Batches that extend a shard one after the other, from position `c` to position `t`. -/
inductive Chain (log : Changelog K) (Q : K → Prop) : WithBot Int → List (StagedRef K) → WithBot Int → Prop
  | nil : Chain log Q c [] c
  | cons (hasEnd : log.Has s.checkpoint) (reaches : c ≤ position (some s.checkpoint))
      (single : (s.changes.map Prod.fst).Nodup) (brings : Brings log Q c (position (some s.checkpoint)) s.changes)
      (tail : Chain log Q (position (some s.checkpoint)) rest t) : Chain log Q c (s :: rest) t

variable {c t : WithBot Int} {s : StagedRef K} {applied : List (StagedRef K)}

section

variable (h : Chain log Q c applied t)
include h

lemma Chain.le : c ≤ t := by
  induction h with
  | nil => exact le_rfl
  | cons _ hext _ _ _ ih => exact hext.trans ih

lemma Chain.within (hk : Q k) (hm : WithinAt log.entries c hi m k) :
    WithinAt log.entries t hi (replay m (applied.flatMap StagedRef.changes)) k := by
  induction h generalizing m with
  | nil => exact hm
  | cons _ hext _ hbrings _ ih =>
    obtain ⟨lo, hlo, hwin⟩ := hbrings k hk
    rw [flatMap_cons, replay_append]
    exact ih (hm.window log.entries_ordered hlo hext hwin)

/-- Every change of a chain is what the source holds for its key at some position of the chain. -/
lemma Chain.change (hk : Q k) (hm : (k, v) ∈ applied.flatMap StagedRef.changes) :
    ∃ lo t', c ≤ t' ∧ t' ≤ t ∧ lastChange (between log.entries lo t') k = some v := by
  induction h with
  | nil => simp at hm
  | cons _ hext hsingle hbrings htail ih =>
    rw [flatMap_cons, mem_append] at hm
    rcases hm with hm | hm
    · obtain ⟨lo, -, hwin⟩ := hbrings k hk
      exact ⟨lo, _, hext, htail.le, hwin.symm.trans (lastChange_of_nodup hsingle hm)⟩
    · obtain ⟨lo, t', hle, ht, hv⟩ := ih hm
      exact ⟨lo, t', hext.trans hle, ht, hv⟩

lemma Chain.last {last : StagedRef K} (hl : applied.getLast? = some last) :
    t = position (some last.checkpoint) ∧ log.Has last.checkpoint := by
  induction h with
  | nil => simp at hl
  | cons hend _ _ _ htail ih =>
    cases htail with
    | nil =>
      obtain rfl : _ = last := by simpa using hl
      exact ⟨rfl, hend⟩
    | cons => exact ih (by simpa [List.getLast?_cons_cons] using hl)

lemma Chain.mem (hs : s ∈ applied) : position (some s.checkpoint) ≤ t := by
  induction h with
  | nil => cases hs
  | cons _ _ _ _ htail ih =>
    rcases mem_cons.mp hs with rfl | hs
    · exact htail.le
    · exact ih hs

end

def Bootstraps (staged : List (StagedRef K)) : Prop :=
  ∀ s, (staged.filter (fun s => !s.alreadyApplied)).head? = some s → s.fromCheckpoint = none

lemma applicable_chain {pos : Option SourceCheckpoint}
    {staged : List (StagedRef K)} (h : applicable pos staged = .ok applied)
    (hpos : ∀ c, pos = some c → log.Has c) (hs : ∀ s ∈ staged, StagedOk log endOf Q c s)
    (hle : c ≤ position pos) (hboot : pos = none → Bootstraps staged) :
    (∃ t, Chain log Q (position pos) applied t) ∧ applied ⊆ staged := by
  induction staged generalizing pos applied with
  | nil =>
    cases h
    exact ⟨⟨_, .nil⟩, List.Subset.refl _⟩
  | cons s rest ih =>
    have hrest : ∀ r ∈ rest, StagedOk log endOf Q c r := fun r hr => hs r (mem_cons_of_mem _ hr)
    have hs := hs s mem_cons_self
    simp only [applicable] at h
    split at h
    · rename_i hskip
      have hboot' : pos = none → Bootstraps rest := by
        intro hn r hr
        exact hboot hn r (by simpa [hskip] using hr)
      obtain ⟨hchain, hsub⟩ := ih h hpos hrest hle hboot'
      exact ⟨hchain, fun r hr => mem_cons_of_mem _ (hsub hr)⟩
    · rename_i hfresh
      have hfresh : s.alreadyApplied = false := by simpa using hfresh
      have hfrom : pos = none → s.fromCheckpoint = none := fun hn => hboot hn s (by simp [hfresh])
      split at h
      · rename_i happly
        cases hr : applicable (some s.checkpoint) rest with
        | error e => simp [hr, Except.map] at h
        | ok applied' =>
          obtain rfl : s :: applied' = applied := by simpa [hr, Except.map] using h
          -- a stale batch is never applied, so the content is that of the window
          obtain ⟨hcov, hext, hnot⟩ := continuity_apply hpos hs.hasEnd hs.hasFrom hfrom happly
          obtain ⟨⟨t, htail⟩, hsub⟩ := ih hr (by rintro _ ⟨⟩; exact hs.hasEnd) hrest
            (hle.trans hext) (by simp)
          rcases (hs.mono hle).content hfresh with hstale | ⟨hsingle, hbrings⟩
          · exact absurd hstale hnot
          · rw [max_eq_right hcov] at hbrings
            exact ⟨⟨t, .cons hs.hasEnd hext hsingle hbrings htail⟩, cons_subset_cons s hsub⟩
      · rename_i hnoop
        have hboot' : pos = none → Bootstraps rest := by
          rintro rfl
          simp [continuity] at hnoop
        obtain ⟨hchain, hsub⟩ := ih h hpos hrest hle hboot'
        exact ⟨hchain, fun r hr => mem_cons_of_mem _ (hsub hr)⟩
      · cases h

/-- One shard under ingest: the staged work in memory, and as a ghost the furthest position that
an interrupted commit was writing towards. -/
structure Ingest (T : Tantivy K (Document K)) where
  shard : Shard T
  staged : List (StagedRef K)
  furthest : WithBot Int

inductive Outcome
  | ok
  | refused (e : StoreError)
  | crashed

def commitEnd (s : Shard T) (staged : List (StagedRef K)) : WithBot Int :=
  match Shard.applicable s.redb.checkpoint staged with
  | .ok applied => position (applied.getLast?.map StagedRef.checkpoint)
  | .error _ => ⊥

/-- One call, or one crash. Staging and refusals write nothing. Until the shard has a checkpoint
its commits are bootstraps. A crash loses the staged work. -/
inductive Step (log : Changelog K) (endOf : String → SourceCheckpoint) :
    Ingest T → Outcome → Ingest T → Prop
  | stage (covers : Covers log endOf b) (ok : st.shard.stageBatch order b = .ok r) :
      Step log endOf st .ok { st with staged := r :: st.staged }
  | stageRefused (covers : Covers log endOf b) (err : st.shard.stageBatch order b = .error e) :
      Step log endOf st (.refused e) st
  | commit (held : staged ⊆ st.staged) (boot : st.shard.redb.checkpoint = none → Bootstraps staged)
      (ok : st.shard.commitStaged staged = .ok (shard, n)) :
      Step log endOf st .ok { st with shard := shard }
  | commitRefused (held : staged ⊆ st.staged) (boot : st.shard.redb.checkpoint = none → Bootstraps staged)
      (err : st.shard.commitStaged staged = .error e) : Step log endOf st (.refused e) st
  | crash (held : staged ⊆ st.staged) (boot : st.shard.redb.checkpoint = none → Bootstraps staged)
      (ok : st.shard.commitPlan staged = .ok (plan, n)) :
      Step log endOf st .crashed ⟨st.shard.crash plan stop, [], max st.furthest (commitEnd st.shard staged)⟩

inductive Reachable (log : Changelog K) (endOf : String → SourceCheckpoint) : Ingest T → Prop
  | start (chunk : Nat) : Reachable log endOf ⟨Shard.empty chunk, [], ⊥⟩
  | step {st st' : Ingest T} {o : Outcome} : Reachable log endOf st → Step log endOf st o st' →
      Reachable log endOf st'

def Ingest.checkpoint (st : Ingest T) : Option SourceCheckpoint := st.shard.redb.checkpoint

/-- The shard holds, for the keys of `Q`, what the changelog holds somewhere between its checkpoint and the furthest
interrupted commit; what is recorded or staged agrees with the checkpoint. -/
structure Tracks (log : Changelog K) (endOf : String → SourceCheckpoint) (Q : K → Prop) (st : Ingest T) : Prop where
  docs : ∃ m, st.shard.Reflects m ∧
    ∀ k, Q k → WithinAt log.entries (position st.checkpoint) st.furthest m k
  has : ∀ c, st.checkpoint = some c → log.Has c
  records : ∀ id ∈ st.shard.redb.batchKeys.map Prod.fst,
    position (some (endOf id)) ≤ position st.checkpoint
  staged : ∀ s ∈ st.staged, StagedOk log endOf Q (position st.checkpoint) s

structure Inv (log : Changelog K) (endOf : String → SourceCheckpoint) (st : Ingest T) : Prop
    extends Tracks log endOf (fun _ => True) st where
  forward : ∀ s ∈ st.staged, position s.fromCheckpoint < position (some s.checkpoint)

lemma tracks_start (chunk : Nat) : Tracks (T := T) log endOf Q ⟨empty chunk, [], ⊥⟩ where
  docs := ⟨fun _ => none, ⟨rfl, holds_empty⟩, fun k _ => WithinAt.start _ k⟩
  has := by rintro c ⟨⟩
  records := by rintro id ⟨⟩
  staged := by rintro s ⟨⟩

lemma advanced_chain {r : Redb} (n : Nat)
    (h : Chain log Q (position r.checkpoint) applied t) (hc : ∀ c, r.checkpoint = some c → log.Has c) :
    position (advanced r applied n).checkpoint = t ∧
    (∀ c, (advanced r applied n).checkpoint = some c → log.Has c) ∧
    ∀ id ∈ (advanced r applied n).batchKeys.map Prod.fst,
      (∃ s ∈ applied, s.batchId = id) ∨ id ∈ r.batchKeys.map Prod.fst := by
  cases hl : applied.getLast? with
  | none =>
    obtain rfl := List.getLast?_eq_none_iff.mp hl
    cases h
    exact ⟨rfl, hc, fun id hid => Or.inr hid⟩
  | some last =>
    obtain ⟨rfl, hhas⟩ := h.last hl
    simp only [advanced, hl, RedbTxn.run]
    refine ⟨by simp, ?_, ?_⟩
    · intro c hcp
      obtain rfl : last.checkpoint = c := by simpa using hcp
      exact hhas
    · intro id hid
      rcases Redb.mem_recordAndPrune hid with hnew | hold
      · exact Or.inl hnew
      · exact Or.inr hold

variable {st : Ingest T}

section

variable (h : Tracks log endOf Q st)
include h

lemma Tracks.drop (hle : st.furthest ≤ hi) : Tracks log endOf Q ⟨st.shard, [], hi⟩ := by
  obtain ⟨m, hm, hw⟩ := h.docs
  exact ⟨⟨m, hm, fun k hk => (hw k hk).mono hle⟩, h.has, h.records, fun r hr => (nomatch hr)⟩

/-- A commit never moves the checkpoint back. -/
lemma Tracks.commit {staged : List (StagedRef K)} (held : staged ⊆ st.staged)
    (boot : st.checkpoint = none → Bootstraps staged)
    (hp : st.shard.commitPlan staged = .ok (plan, n)) : Tracks log endOf Q { st with shard := st.shard.exec plan } ∧
      position st.checkpoint ≤ position (st.shard.exec plan).redb.checkpoint := by
  obtain ⟨m, hm, hw⟩ := h.docs
  obtain ⟨applied, ha, hrefl, hredb⟩ := hm.commit hp
  obtain ⟨⟨t, hchain⟩, hsub⟩ := applicable_chain ha h.has (fun s hs => h.staged s (held hs)) le_rfl boot
  obtain ⟨hpos, hhas, hrec⟩ := advanced_chain n hchain h.has
  rw [← hredb] at hpos hhas hrec
  have hle : position st.checkpoint ≤ position (st.shard.exec plan).redb.checkpoint := hpos ▸ hchain.le
  refine ⟨⟨⟨_, hrefl, fun k hk => ?_⟩, hhas, fun id hid => ?_, fun s hs => (h.staged s hs).mono hle⟩, hle⟩
  · rw [Ingest.checkpoint, hpos]
    exact hchain.within hk (hw k hk)
  · rcases hrec id hid with ⟨s, hs, rfl⟩ | hold
    · rw [(h.staged s (held (hsub hs))).named, Ingest.checkpoint, hpos]
      exact hchain.mem hs
    · exact (h.records id hold).trans hle

/-- An interrupted commit only runs keys ahead, towards its own end. -/
lemma Tracks.crash {staged : List (StagedRef K)} (held : staged ⊆ st.staged)
    (boot : st.checkpoint = none → Bootstraps staged)
    (hp : st.shard.commitPlan staged = .ok (plan, n)) (stop : Nat) :
    Tracks log endOf Q ⟨st.shard.crash plan stop, [], max st.furthest (commitEnd st.shard staged)⟩ ∧
      position st.checkpoint ≤ position (st.shard.crash plan stop).redb.checkpoint := by
  obtain ⟨m, hm, hw⟩ := h.docs
  rcases hm.crash hp stop with ⟨applied, cs, ha, hcs, hrefl, hredb⟩ | hdone
  · obtain ⟨⟨t, hchain⟩, hsub⟩ := applicable_chain ha h.has (fun s hs => h.staged s (held hs)) le_rfl boot
    refine ⟨⟨⟨_, hrefl, fun k hk => ?_⟩, fun c hc => ?_, fun id hid => ?_, by rintro s ⟨⟩⟩, by rw [hredb]; exact le_rfl⟩
    · rw [Ingest.checkpoint, hredb]
      refine (hw k hk).interrupted log.entries_ordered fun v hkv => ?_
      cases hl : applied.getLast? with
      | none =>
        obtain rfl := List.getLast?_eq_none_iff.mp hl
        have hnil := prefix_nil.mp hcs
        simp [hnil] at hkv
      | some last =>
        obtain ⟨rfl, _⟩ := hchain.last hl
        obtain ⟨lo, t', hct, ht, hv⟩ := hchain.change hk (hcs.subset hkv)
        refine ⟨lo, t', hct, ?_, hv⟩
        simpa [commitEnd, ha, hl] using ht
    · rw [Ingest.checkpoint, hredb] at hc
      exact h.has c hc
    · rw [hredb] at hid
      rw [Ingest.checkpoint, hredb]
      exact h.records id hid
  · obtain ⟨htracks, hle⟩ := h.commit held boot hp
    rw [hdone]
    exact ⟨htracks.drop (le_max_left _ _), hle⟩

lemma Tracks.stage (hend : log.Has b.checkpoint)
    (hfrom : ∀ f, b.fromCheckpoint = some f → log.Has f) (hnamed : endOf b.batchId = b.checkpoint)
    (hbrings : Brings log Q (max (position b.fromCheckpoint) (position st.checkpoint))
      (position (some b.checkpoint)) b.changes)
    (hr : st.shard.stageBatch order b = .ok r) : Tracks log endOf Q { st with staged := r :: st.staged } := by
  obtain ⟨hcp, hstart, hid, hcontent⟩ := stageBatch_ok hr
  refine ⟨h.docs, h.has, h.records, forall_mem_cons.mpr ⟨⟨hcp ▸ hend, hstart ▸ hfrom, by rw [hid, hcp, hnamed],
    fun happlied => ?_, fun hfresh => ?_⟩, h.staged⟩⟩
  · rcases hcontent with ⟨-, hrec⟩ | ⟨hfresh, -⟩ | ⟨hfresh, -⟩
    · have := h.records _ (Redb.batchSnapshot_mem hrec)
      rwa [hnamed, ← hcp] at this
    · simp [hfresh] at happlied
    · simp [hfresh] at happlied
  · rcases hcontent with ⟨hdup, -⟩ | ⟨-, -, hno⟩ | ⟨-, hnd, hlast, -⟩
    · simp [hfresh] at hdup
    · left
      rw [Stale, hcp, hstart]
      exact continuity_noOp h.has hend hfrom hno
    · refine .inr ⟨hnd, fun k hk => ?_⟩
      obtain ⟨lo, hlo, hwin⟩ := hbrings k hk
      exact ⟨lo, hstart ▸ hlo, hcp ▸ (hlast k).trans hwin⟩

end

lemma Inv.step {st' : Ingest T} {o : Outcome} (hi : Inv log endOf st)
    (hs : Step log endOf st o st') :
    Inv log endOf st' ∧ position st.checkpoint ≤ position st'.checkpoint := by
  cases hs with
  | stage covers ok =>
    obtain ⟨hcp, hstart, -⟩ := stageBatch_ok ok
    refine ⟨⟨hi.toTracks.stage covers.hasEnd covers.hasFrom covers.named ?_ ok, forall_mem_cons.mpr ⟨?_, hi.forward⟩⟩, le_rfl⟩
    · exact fun k _ => ⟨_, le_max_left _ _, covers.window k⟩
    · rw [hcp, hstart]
      exact covers.forward
  | commit held boot ok =>
    obtain ⟨⟨plan, _⟩, hp, hexec⟩ := map_ok ok
    obtain ⟨rfl, rfl⟩ := Prod.mk.inj hexec
    obtain ⟨htracks, hle⟩ := hi.toTracks.commit held boot hp
    exact ⟨⟨htracks, hi.forward⟩, hle⟩
  | crash held boot ok =>
    obtain ⟨htracks, hle⟩ := hi.toTracks.crash held boot ok _
    exact ⟨⟨htracks, by rintro s ⟨⟩⟩, hle⟩
  | _ => exact ⟨hi, le_rfl⟩

lemma Reachable.inv (hr : Reachable log endOf st) : Inv log endOf st := by
  induction hr with
  | start chunk => exact ⟨tracks_start chunk, by rintro s ⟨⟩⟩
  | step _ hs ih => exact (ih.step hs).1

lemma Inv.stage_gap (hi : Inv log endOf st) {b : CommitBatch K}
    (hb : Covers log endOf b) {c : SourceCheckpoint} (hc : st.checkpoint = some c)
    (hgap : position (some c) < position b.fromCheckpoint) (order : HashOrder (K × DocOp K)) :
    st.shard.stageBatch order b = .error (.checkpointGap b.fromCheckpoint (some c)) := by
  have hcp : st.shard.redb.checkpoint = some c := hc
  have hnew : (st.shard.redb.batchSnapshot b.batchId).isSome = false := by
    -- a recorded id would put the window's end at or behind the shard
    by_contra hrec
    have hmem := Redb.batchSnapshot_mem (Bool.eq_true_of_not_eq_false hrec)
    have hle := hi.records _ hmem
    rw [hb.named, hc] at hle
    exact absurd (hgap.trans hb.forward) hle.not_gt
  simp [stageBatch, hnew, hcp, continuity_gap (hi.has c hc) hb.hasEnd hb.hasFrom hgap hb.forward]

lemma applicable_gap {pos : SourceCheckpoint} {before after : List (StagedRef K)} (hpos : log.Has pos)
    (hok : ∀ r ∈ before, StagedOk log endOf Q c r) (hs : StagedOk log endOf Q c s)
    (hforward : position s.fromCheckpoint < position (some s.checkpoint)) (hfresh : s.alreadyApplied = false)
    (hgap : position (some pos) < position s.fromCheckpoint)
    (hbefore : ∀ r ∈ before, position (some r.checkpoint) < position s.fromCheckpoint) :
    ∃ e, applicable (some pos) (before ++ s :: after) = .error e := by
  induction before generalizing pos with
  | nil =>
    refine ⟨.checkpointGap s.fromCheckpoint (some pos), ?_⟩
    simp [applicable, hfresh, continuity_gap hpos hs.hasEnd hs.hasFrom hgap hforward]
  | cons r before ih =>
    have hok' : ∀ r ∈ before, StagedOk log endOf Q c r := fun q hq => hok q (mem_cons_of_mem _ hq)
    have hbefore' : ∀ r ∈ before, position (some r.checkpoint) < position s.fromCheckpoint :=
      fun q hq => hbefore q (mem_cons_of_mem _ hq)
    simp only [cons_append, applicable]
    split
    · exact ih hpos hok' hgap hbefore'
    · split
      · obtain ⟨e, he⟩ := ih (hok r mem_cons_self).hasEnd hok' (hbefore r mem_cons_self) hbefore'
        exact ⟨e, by simp [he, Except.map]⟩
      · exact ih hpos hok' hgap hbefore'
      · exact ⟨_, rfl⟩

lemma Inv.commit_gap (hi : Inv log endOf st) {before after : List (StagedRef K)} {c : SourceCheckpoint}
    (held : before ++ s :: after ⊆ st.staged) (hc : st.checkpoint = some c)
    (hfresh : s.alreadyApplied = false) (hgap : position (some c) < position s.fromCheckpoint)
    (hbefore : ∀ r ∈ before, position (some r.checkpoint) < position s.fromCheckpoint) :
    ∃ e, st.shard.commitStaged (before ++ s :: after) = .error e := by
  have hcp : st.shard.redb.checkpoint = some c := hc
  obtain ⟨e, he⟩ : ∃ e, applicable (some c) (before ++ s :: after) = .error e :=
    applicable_gap (hi.has c hc) (fun r hr => hi.staged r (held (mem_append_left _ hr)))
      (hi.staged s (held (mem_append_right _ mem_cons_self))) (hi.forward s (held (mem_append_right _ mem_cons_self)))
      hfresh hgap hbefore
  rw [commitStaged, commitPlan, hcp, he]
  split
  · exact ⟨_, rfl⟩
  · exact ⟨_, rfl⟩

/-- After every call that returns, each key holds what the changelog's fold holds at some position from the stored
checkpoint to the furthest end of an interrupted commit. The checkpoint never moves back, a refusal changes nothing,
and a window that would leave a gap is refused when staged and when committed. -/
theorem exactly_once {st st' : Ingest T} {o : Outcome} (hr : Reachable log endOf st)
    (hs : Step log endOf st o st') :
    (o = .ok → ∀ k, ∃ p, position st'.checkpoint ≤ p ∧ p ≤ max (position st'.checkpoint) st'.furthest ∧
      st'.shard.live k = (stateAt log.entries p k).toList) ∧
    (o = .ok → st'.furthest ≤ position st'.checkpoint → ∀ k,
      st'.shard.live k = (stateAt log.entries (position st'.checkpoint) k).toList) ∧
    position st.checkpoint ≤ position st'.checkpoint ∧
    (∀ e, o = .refused e → st' = st) ∧
    (∀ b c, Covers log endOf b → st.checkpoint = some c → position (some c) < position b.fromCheckpoint → ∀ order,
      st.shard.stageBatch order b = .error (.checkpointGap b.fromCheckpoint (some c))) ∧
    (∀ before s after c, before ++ s :: after ⊆ st.staged → st.checkpoint = some c →
      s.alreadyApplied = false → position (some c) < position s.fromCheckpoint →
      (∀ r ∈ before, position (some r.checkpoint) < position s.fromCheckpoint) →
      ∃ e, st.shard.commitStaged (before ++ s :: after) = .error e) := by
  have hi := hr.inv
  obtain ⟨hi', hmono⟩ := hi.step hs
  obtain ⟨m, hm, hw⟩ := hi'.docs
  refine ⟨fun _ k => ?_, fun _ hle k => ?_, hmono, ?_, ?_, ?_⟩
  · obtain ⟨p, hcp, hp, hk⟩ := hw k trivial
    exact ⟨p, hcp, hp, by rw [hm.live, hk]⟩
  · rw [hm.live, (hw k trivial).exact hle]
  · rintro e rfl
    cases hs <;> rfl
  · exact fun b c hb hc hgap order => hi.stage_gap hb hc hgap order
  · exact fun _ _ _ _ held hc hfresh hgap hbefore => hi.commit_gap held hc hfresh hgap hbefore

namespace Sample

def version (n : Int) : Document Nat := ⟨7, [("n", .int n)]⟩

def changelog : Changelog Nat where
  snapshots := [⟨10, 1, [.upsert (version 1)]⟩, ⟨20, 2, [.upsert (version 2)]⟩]
  increasing := by simp
  distinct := by simp

def ends (id : String) : SourceCheckpoint := if id = "a" then ⟨10, some 1⟩ else ⟨20, some 2⟩

def bootstrap : CommitBatch Nat := ⟨[.upsert (version 1)], ⟨10, some 1⟩, "a", none, none⟩

def next : CommitBatch Nat := ⟨[.upsert (version 2)], ⟨20, some 2⟩, "b", some ⟨10, some 1⟩, none⟩

abbrev Docs := listTantivy Nat (Document Nat)

def start : Ingest Docs := ⟨Shard.empty 0, [], ⊥⟩

lemma bootstrap_covers : Covers changelog ends bootstrap where
  hasEnd := ⟨_, mem_cons_self, rfl⟩
  hasFrom := by rintro f ⟨⟩
  forward := WithBot.bot_lt_coe _
  named := rfl
  window k := rfl

lemma next_covers : Covers changelog ends next where
  hasEnd := ⟨_, mem_cons_of_mem _ mem_cons_self, rfl⟩
  hasFrom := by rintro f ⟨⟩; exact ⟨_, mem_cons_self, rfl⟩
  forward := WithBot.coe_lt_coe.mpr (by decide)
  named := rfl
  window k := rfl

def firstRef : StagedRef Nat := ⟨⟨10, some 1⟩, none, "a", [(7, version 1)], [], false, none⟩

def nextRef : StagedRef Nat :=
  ⟨⟨20, some 2⟩, some ⟨10, some 1⟩, "b", [(7, version 2)], [], false, none⟩

def resentRef : StagedRef Nat := ⟨⟨10, some 1⟩, none, "a", [], [], true, none⟩

def staged : Ingest Docs := { start with staged := [firstRef] }

lemma staged_reachable : Reachable changelog ends staged := by
  have hok : start.shard.stageBatch (insertion _) bootstrap = .ok firstRef := rfl
  exact .step (.start 0) (.stage bootstrap_covers hok)

def redb : Redb := ⟨some ⟨10, some 1⟩, 1, [("a", 1)], [(1, "a")], none, none⟩

def committed : Ingest Docs :=
  { staged with shard := ⟨⟨[(7, version 1)], [(7, version 1)], redb⟩, false, 0⟩ }

lemma bootstrap_step : Step changelog ends staged .ok committed := by
  have hok : staged.shard.commitStaged [firstRef] = .ok (committed.shard, 1) := rfl
  refine .commit (List.Subset.refl _) ?_ hok
  intro _ s hs
  cases hs
  rfl

def nextStaged : Ingest Docs :=
  { committed with staged := [nextRef, firstRef] }

def nextPlan : Plan Nat :=
  [.write (.upsert 7 (version 2)), .flush, .txn (.advance ⟨20, some 2⟩ 2 [nextRef])]

def resent : Ingest Docs :=
  ⟨⟨⟨[(7, version 2)], [(7, version 2)], redb⟩, false, 0⟩, [resentRef], (2 : Int)⟩

lemma resent_reachable : Reachable changelog ends resent := by
  have hstage : committed.shard.stageBatch (insertion _) next = .ok nextRef := rfl
  have hplan : nextStaged.shard.commitPlan [nextRef] = .ok (nextPlan, 2) := rfl
  have hcrash : { resent with staged := [] } = Ingest.mk (nextStaged.shard.crash nextPlan 2) []
      (max nextStaged.furthest (commitEnd nextStaged.shard [nextRef])) := by
    congr 1
  have hresend : stageBatch (insertion _) resent.shard bootstrap = .ok resentRef := rfl
  have hnext : Reachable changelog ends nextStaged :=
    .step (.step staged_reachable bootstrap_step) (.stage next_covers hstage)
  have hcrashed : Reachable changelog ends { resent with staged := [] } := by
    rw [hcrash]
    exact .step hnext (.crash (cons_subset_cons _ (nil_subset _)) (by rintro ⟨⟩) hplan)
  exact .step hcrashed (.stage bootstrap_covers hresend)

lemma resent_step : Step changelog ends resent .ok resent := by
  have hcommit : resent.shard.commitStaged [resentRef] = .ok (resent.shard, 1) := rfl
  exact .commit (List.Subset.refl _) (by rintro ⟨⟩) hcommit

end Sample

open Sample

/-- After the first commit, and when its batch comes again behind a crash inside the second. -/
theorem exactly_once_resent : (∀ k, committed.shard.live k =
      (stateAt changelog.entries (position (some ⟨10, some 1⟩)) k).toList) ∧
    ∀ k, ∃ p, position (some ⟨10, some 1⟩) ≤ p ∧ p ≤ (2 : Int) ∧
      resent.shard.live k = (stateAt changelog.entries p k).toList :=
  ⟨(exactly_once staged_reachable bootstrap_step).2.1 rfl bot_le,
    (exactly_once resent_reachable resent_step).1 rfl⟩

/-- Re-sending the first window after a crash inside the second succeeds, while the key already
holds the second window's document. -/
theorem resend_after_crash : ∃ st' : Ingest Docs,
    Reachable changelog ends resent ∧
    Step changelog ends resent .ok st' ∧
    st'.shard.live 7 ≠
      (stateAt changelog.entries (position st'.checkpoint) 7).toList := by
  refine ⟨resent, resent_reachable, resent_step, ?_⟩
  decide

end GrowlerDB.Index
