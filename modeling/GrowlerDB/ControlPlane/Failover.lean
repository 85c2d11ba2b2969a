import GrowlerDB.ControlPlane.Leadership

namespace GrowlerDB.ControlPlane
open Option Function ControlPlanes Bool Grows

variable {expected version : Nat}

namespace ControlPlanes

variable {V E R : Type} {muts : Nat → Mutation V E} {loaded : CoreMap → V}
  {row row' : Lib.Versioned (Maps muts loaded)}
  {home : Nat → R} {s : ControlPlanes R muts loaded} {r : R} {t u : Nat}

def Quiet (home : Nat → R) (s : ControlPlanes R muts loaded) (r : R) : Prop :=
  ∀ t, home t = r → (s.phase t).Settled

structure Consistent (home : Nat → R) (s : ControlPlanes R muts loaded) : Prop where
  replicas : ∀ r, ReplicaOk s.row (s.replica r) (s.Quiet home r)
  mutations : ∀ t, PersistOk s.row (s.replica (home t)) t (s.phase t)

lemma Consistent.start (version : Nat) : (start version : ControlPlanes R muts loaded).Consistent home where
  replicas _ := ⟨Nat.le_refl _, fun hw => absurd hw false_ne_true, fun _ => rfl, trivial⟩
  mutations _ := trivial

section

variable (h : s.Consistent home)
include h

lemma Consistent.lock (l : Option R) : Consistent home { s with lock := l } :=
  ⟨h.replicas, h.mutations⟩

lemma Consistent.write (hv : row'.version = s.row.version + 1)
    (hd : s.row.doc ≤ row'.doc) : Consistent home { s with row := row' } where
  replicas r := (h.replicas r).write hv
  mutations t := (h.mutations t).write hv hd

lemma Consistent.phaseAt (hp : s.phase t = q) : PersistOk s.row (s.replica (home t)) t q :=
  hp ▸ h.mutations t

lemma Consistent.on (hr : home u = r) : PersistOk s.row (s.replica r) u (s.phase u) :=
  hr ▸ h.mutations u

lemma Consistent.notPromoting (hp : s.phase t = q) (hq : ¬ q.Settled) :
    ¬ (s.replica (home t)).leadership.Promoting :=
  fun hl => hq (hp ▸ (h.replicas (home t)).leads.settled hl t rfl)

end

lemma phase_move : (s.move t p).phase u = if u = t then p else s.phase u := by
  by_cases h : u = t
  · rw [if_pos h, h]
    exact update_self ..
  · rw [if_neg h]
    exact update_of_ne h ..

lemma write_cases (s : ControlPlanes R muts loaded) (r : R) (answer : Answer) (expected : Nat)
    (snapshot : Maps muts loaded) : s.write r answer expected snapshot = (s.row, false) ∨
      ∃ row known, s.row.swap expected snapshot = some row ∧ s.write r answer expected snapshot = (row, known) := by
  unfold write
  split
  · exact .inr ⟨_, _, ‹_›, rfl⟩
  · exact .inr ⟨_, _, ‹_›, rfl⟩
  · exact .inl rfl

variable {snapshot : Maps muts loaded}

lemma Consistent.wrote (h : s.Consistent home)
    (hp : s.phase t = .expecting snapshot expected) (hs : s.row.swap expected snapshot = some row) :
    s.row.doc ≤ row.doc ∧ row.doc = snapshot ∧ expected = s.row.version ∧ row.version = s.row.version + 1 := by
  obtain ⟨hd, hdoc, hexp, hver⟩ := (h.phaseAt hp).2.1.swap hs
  exact ⟨hdoc ▸ hd, hdoc, hexp, hver⟩

variable [DecidableEq R]

lemma replica_set (r' : R) : (s.set r rep).replica r' = if r' = r then rep else s.replica r' := by
  by_cases h : r' = r
  · rw [if_pos h, h]
    exact update_self ..
  · rw [if_neg h]
    exact update_of_ne h ..

lemma set_move_self : (s.move t p).set r (s.replica r) = s.move t p := by
  rw [set]
  congr 1
  exact update_eq_self ..

lemma Consistent.set (h : s.Consistent home) (hrep : ReplicaOk s.row rep (s.Quiet home r))
    (hmut : ∀ u, home u = r → PersistOk s.row rep u (s.phase u)) : (s.set r rep).Consistent home where
  replicas r' := by
    rw [replica_set]
    split_ifs with hr
    · exact hr ▸ hrep
    · exact h.replicas r'
  mutations u := by
    rw [replica_set]
    split_ifs with hr
    · exact hmut u hr
    · exact h.mutations u

lemma other_ne {lock : Option Nat} (hl : lock = some t) : ∀ u ≠ t, lock ≠ some u := by
  rintro u hu rfl
  exact hu (some.inj hl)

section

variable (h : s.Consistent home)
include h

/-- A step of a mutation is right if it is right for its replica, for it, and for the others there. -/
lemma Consistent.step
    (hrep : ReplicaOk s.row rep ((s.move t p).Quiet home (home t))) (hself : PersistOk s.row rep t p)
    (hothers : ∀ u ≠ t, home u = home t → PersistOk s.row rep u (s.phase u)) :
    ((s.move t p).set (home t) rep).Consistent home where
  replicas r := by
    rw [replica_set]
    split_ifs with hr
    · exact hr ▸ hrep
    · obtain ⟨hnoted, hwriter, hback, hleads⟩ := h.replicas r
      refine ⟨hnoted, hwriter, hback, hleads.mono fun hq u hu => ?_⟩
      have hut : u ≠ t := fun heq => hr (hu ▸ heq ▸ rfl)
      exact (phase_move.trans (if_neg hut)).symm ▸ hq u hu
  mutations u := by
    have hphase : ((s.move t p).set (home t) rep).phase u = if u = t then p else s.phase u := phase_move
    rw [replica_set, hphase]
    split_ifs with hr hu hu
    · exact hu ▸ hself
    · exact hothers u hu hr
    · exact absurd (congrArg home hu) hr
    · exact h.mutations u

lemma Consistent.inside (hp : s.phase t = q) (hq : ¬ q.Settled)
    (hl : ∀ u ≠ t, (s.replica (home t)).flushLock ≠ some u) (hg : Grows (s.replica (home t)) rep)
    (hlead : rep.leadership = (s.replica (home t)).leadership) (hnoted : rep.versions ≤ s.row.version)
    (hwriter : rep.isWriter → s.row.AsOf rep.versions (· ≤ rep.memory))
    (hback : rep.rollbackFailed → rep.isWriter = false) (hself : PersistOk s.row rep t p) :
    ((s.move t p).set (home t) rep).Consistent home := by
  refine h.step ⟨hnoted, hwriter, hback, ?_⟩ hself fun u hu hr => ?_
  · rw [hlead]
    exact (h.replicas (home t)).leads.grow (h.notPromoting hp hq) hg
  · exact (h.on hr).outside (hl u hu) hg

lemma Consistent.moved (hp : s.phase t = q) (hq : ¬ q.Settled)
    (hl : (s.replica (home t)).flushLock = some t) (hself : PersistOk s.row (s.replica (home t)) t p) :
    (s.move t p).Consistent home := by
  obtain ⟨hnoted, hwriter, hback, -⟩ := h.replicas (home t)
  rw [← set_move_self (r := home t)]
  exact h.inside hp hq (other_ne hl) ⟨id, fun _ => le_rfl⟩ rfl hnoted hwriter hback hself

lemma Consistent.applied
    (hl : ¬ (s.replica (home t)).leadership.Promoting) (ha : (s.replica (home t)).apply t = some rep) :
    ((s.move t .applied).set (home t) rep).Consistent home := by
  obtain ⟨memory, rfl, hmem, ht⟩ := Replica.apply_cases ha
  obtain ⟨hnoted, hwriter, hback, hleads⟩ := h.replicas (home t)
  have hg : Grows (s.replica (home t)) { s.replica (home t) with memory := memory } := ⟨id, fun _ => hmem⟩
  refine h.step ⟨hnoted, fun hw => (hwriter hw).mono fun _ hd => hd.trans hmem, hback, hleads.grow hl hg⟩
    (fun _ => ht) fun u _ hr => (h.on hr).grow hg rfl rfl

lemma Consistent.declined (hl : ¬ (s.replica (home t)).leadership.Promoting) :
    (s.move t (.returned false)).Consistent home := by
  obtain ⟨hnoted, hwriter, hback, hleads⟩ := h.replicas (home t)
  rw [← set_move_self (r := home t)]
  exact h.step ⟨hnoted, hwriter, hback, hleads.grow hl ⟨id, fun _ => le_rfl⟩⟩
    (fun hok => absurd hok false_ne_true) fun u _ hr => h.on hr

lemma Consistent.entered (hp : s.phase t = .applied)
    (hl : (s.replica (home t)).flushLock = none)
    (hself : PersistOk s.row { s.replica (home t) with flushLock := some t } t p) :
    ((s.move t p).set (home t) { s.replica (home t) with flushLock := some t }).Consistent home := by
  obtain ⟨hnoted, hwriter, hback, -⟩ := h.replicas (home t)
  refine h.inside hp id (fun u _ => ?_) ⟨id, fun _ => le_rfl⟩ rfl hnoted hwriter hback hself
  rw [hl]
  exact (some_ne_none u).symm

lemma Consistent.cloned
    (hp : s.phase t = .cloning (m :: left) snapshot) :
    (s.move t (.cloning left (update snapshot m ((s.replica (home t)).memory m)))).Consistent home := by
  obtain ⟨hl, hcloned⟩ := h.phaseAt hp
  refine h.moved hp id hl ⟨hl, fun hw => ?_⟩
  obtain ⟨hheld, hleft⟩ := hcloned hw
  refine ⟨hheld, fun m' hm' => ?_⟩
  by_cases hm : m' = m
  · -- the memory of the writer is not behind the row
    subst hm
    rw [update_self]
    refine ⟨((h.replicas (home t)).writer hw).mono fun _ hd => hd m', le_rfl, fun hown => ?_⟩
    subst hown
    rw [Holds, update_self]
    exact hheld
  · rw [update_of_ne hm]
    obtain ⟨hrow, hmem, hown⟩ := hleft m' (by simp [hm, hm'])
    refine ⟨hrow, hmem, fun heq => ?_⟩
    have hsnap := hown heq
    rw [Holds] at hsnap ⊢
    rwa [← heq, update_of_ne hm, heq]

lemma Consistent.checked (hp : s.phase t = .cloning [] snapshot) :
    (s.move t (if (s.replica (home t)).isWriter then .checked snapshot else .failed false)).Consistent home := by
  obtain ⟨hl, hcloned⟩ := h.phaseAt hp
  refine h.moved hp id hl ?_
  cases hw : (s.replica (home t)).isWriter with
  | false => exact ⟨hl, hw⟩
  | true =>
    obtain ⟨-, hall⟩ := hcloned hw
    have hall := fun m => hall m List.not_mem_nil
    exact ⟨hl, ⟨(h.replicas (home t)).noted, fun hv m => (hall m).1.2 hv⟩, fun _ m => (hall m).2.1,
      (hall (muts t).map).2.2 rfl⟩

lemma Consistent.persisted
    (hp : s.phase t = .expecting snapshot expected) (answer : Answer) :
    Consistent home { s.move t (if (s.write (home t) answer expected snapshot).2 then .written expected
        else .refused) with row := (s.write (home t) answer expected snapshot).1 } := by
  obtain ⟨hl, hrow, hmem, hheld⟩ := h.phaseAt hp
  obtain heq | ⟨row, known, hs, heq⟩ := s.write_cases (home t) answer expected snapshot <;> rw [heq]
  · exact h.moved hp id hl hl
  · obtain ⟨hd, hdoc, hexp, hver⟩ := h.wrote hp hs
    refine (h.write hver hd).moved hp id hl ?_
    cases known with
    | false => exact hl
    | true =>
      subst hdoc
      refine ⟨hl, hheld, ?_, fun _ => hmem⟩
      rw [hver, hexp]

lemma Consistent.noted (hp : s.phase t = .written expected) :
    ((s.move t (.returned true)).set (home t) { s.replica (home t) with versions := expected + 1, flushLock := none }).Consistent home := by
  obtain ⟨hl, hheld, hrow⟩ := h.phaseAt hp
  refine h.inside hp id (other_ne hl) ⟨id, fun _ => le_rfl⟩ rfl hrow.1
    (fun hw => hrow.mono fun _ hd => hd hw) (h.replicas (home t)).rolledBack fun _ => hheld

lemma Consistent.resigned (hp : s.phase t = .refused) :
    ((s.move t .unlocking).set (home t) { s.replica (home t) with isWriter := false }).Consistent home := by
  have hl : (s.replica (home t)).flushLock = some t := h.phaseAt hp
  exact h.inside hp id (other_ne hl) (.of_standby rfl) rfl (h.replicas (home t)).noted
    (fun hw => absurd hw false_ne_true) (fun _ => rfl) ⟨hl, rfl⟩

end

lemma askUnlock_eq (s : ControlPlanes R muts loaded) (r : R) (answer : Answer) :
    ∃ l, s.askUnlock r answer = { s with lock := l } := by
  unfold askUnlock
  split
  · exact ⟨s.lock, rfl⟩
  · exact ⟨_, rfl⟩

lemma Consistent.restoring (h : s.Consistent home) (hp : s.phase t = q) (hq : ¬ q.Settled)
    (hl : (s.replica (home t)).flushLock = some t) (hw : rep.isWriter = false)
    (hlead : rep.leadership = (s.replica (home t)).leadership) (hnoted : rep.versions ≤ s.row.version)
    (hself : PersistOk s.row rep t p) : ((s.move t p).set (home t) rep).Consistent home := by
  have hwriter : ¬ rep.isWriter := eq_false_iff.mp hw
  exact h.inside hp hq (other_ne hl) (.of_standby hw) hlead hnoted (fun hw => absurd hw hwriter) (fun _ => hw) hself

lemma Consistent.advance (h : s.Consistent home)
    (ha : s.Undisturbed home (.mutation t answer)) : (s.advance (home t) t answer).Consistent home := by
  have hrep := h.replicas (home t)
  unfold ControlPlanes.advance
  cases hp : s.phase t with
  | waiting =>
    simp only [Undisturbed, hp, Persist.Undisturbed] at ha
    dsimp only
    cases happ : (s.replica (home t)).apply t with
    | none => exact h.declined ha
    | some rep => exact h.applied ha happ
  | applied =>
    dsimp only
    split_ifs with hl hb
    · exact h
    · exact h.entered hp (not_isSome_iff_eq_none.mp hl) ⟨rfl, hrep.rolledBack hb⟩
    · exact h.entered hp (not_isSome_iff_eq_none.mp hl)
        ⟨rfl, fun hw => ⟨h.phaseAt hp hw, fun m hm => absurd m.mem_all hm⟩⟩
  | cloning left snapshot =>
    cases left with
    | nil => exact h.checked hp
    | cons m left => exact h.cloned hp
  | checked snapshot =>
    obtain ⟨hl, hrow⟩ := h.phaseAt hp
    exact h.moved hp id hl ⟨hl, hrow⟩
  | expecting snapshot expected => exact h.persisted hp answer
  | written expected => exact h.noted hp
  | refused => exact h.resigned hp
  | unlocking =>
    obtain ⟨l, hlock⟩ := s.askUnlock_eq (home t) answer
    obtain ⟨hl, hw⟩ := h.phaseAt hp
    dsimp only
    rw [hlock]
    exact (h.lock l).moved hp id hl ⟨hl, hw⟩
  | failed retry =>
    obtain ⟨hl, hw⟩ := h.phaseAt hp
    dsimp only
    split
    · exact h.moved hp id hl ⟨hl, hw, Nat.le_refl _⟩
    · exact h.restoring hp id hl hw rfl hrep.noted fun hok => absurd hok false_ne_true
  | fetched stored version retry =>
    obtain ⟨hl, hw, hnoted⟩ := h.phaseAt hp
    exact h.restoring hp id hl hw rfl hnoted ⟨hl, hw⟩
  | restoring left stored retry =>
    obtain ⟨hl, hw⟩ := h.phaseAt hp
    cases left with
    | nil => exact h.restoring hp id hl hw rfl hrep.noted fun hok => absurd hok false_ne_true
    | cons m left => exact h.restoring hp id hl hw rfl hrep.noted ⟨hl, hw⟩
  | returned ok => exact h

section

variable (h : s.Consistent home)
include h

lemma Consistent.led (hg : Grows (s.replica r) rep)
    (hv : rep.versions = (s.replica r).versions) (hl : rep.flushLock = (s.replica r).flushLock)
    (hback : rep.rollbackFailed → (s.replica r).rollbackFailed)
    (hlead : LeadOk s.row rep (s.Quiet home r) rep.leadership) : (s.set r rep).Consistent home := by
  obtain ⟨hnoted, hwriter, hrolled, -⟩ := h.replicas r
  refine h.set ⟨hv ▸ hnoted, fun hw => ?_, fun hb => hg.standby (hrolled (hback hb)), hlead⟩ fun u hu =>
    (h.on hu).grow hg hv hl
  rw [hv]
  exact (hwriter (hg.writer hw)).mono fun _ hd => hd.trans (hg.memory hw)

lemma Consistent.reloaded (hl : (s.replica r).leadership = .fetched stored version promote)
    (hc : ∀ t, home t = r → ¬ (s.phase t).Checked) : (s.set r { s.replica r with versions := version, leadership := .reloading CoreMap.all stored promote }).Consistent home := by
  obtain ⟨-, -, -, hleads⟩ := h.replicas r
  rw [hl] at hleads
  obtain ⟨hw, hversion, hpromote⟩ := hleads
  refine h.set ⟨hversion, fun hw' => absurd (hw.symm.trans hw') false_ne_true, fun _ => hw, hw, fun hp => ?_⟩
    fun u hu => (h.on hu).reload (hc u hu) hw rfl
  obtain ⟨hq, hrow⟩ := hpromote hp
  exact ⟨hq, hrow.mono fun _ hd => ⟨hd, fun m hm => absurd m.mem_all hm⟩⟩

lemma Consistent.confirmed (hl : (s.replica r).leadership = .ready) :
    (s.set r { s.replica r with isWriter := true, leadership := .idle }).Consistent home := by
  obtain ⟨hnoted, -, -, hleads⟩ := h.replicas r
  rw [hl] at hleads
  obtain ⟨hw, hback, hq, hrow⟩ := hleads
  refine h.set ⟨hnoted, fun _ => hrow.mono fun _ hd => le_of_eq hd, fun hb => ?_, trivial⟩ fun u hu => ?_
  · exact absurd (hback.symm.trans hb) false_ne_true
  · have hmut := h.on hu
    have hset := hq u hu
    cases hp : s.phase u with
    | waiting => trivial
    | returned ok => rwa [hp] at hmut
    | _ =>
      rw [hp] at hset
      exact hset.elim

lemma Consistent.turned (l : Leadership muts loaded) (hlead : LeadOk s.row (s.replica r) (s.Quiet home r) l) :
    (s.set r { s.replica r with leadership := l }).Consistent home := by
  refine h.led ⟨id, fun _ => le_rfl⟩ rfl rfl id ?_
  cases l <;> exact hlead

end

lemma Consistent.lead (h : s.Consistent home)
    (ha : s.Undisturbed home (.leadership r answer)) : (s.lead r answer).Consistent home := by
  have hleads := (h.replicas r).leads
  cases hl : (s.replica r).leadership with
  | idle =>
    simp only [ControlPlanes.lead, hl]
    split_ifs with hw
    · split
      · exact h
      · exact h.led (of_standby rfl) rfl rfl id trivial
    · split
      · exact h
      · exact h.led ⟨id, fun _ => le_rfl⟩ rfl rfl id (eq_false_iff.mpr hw)
  | racing =>
    rw [hl] at hleads
    simp only [ControlPlanes.lead, hl]
    split
    · split_ifs
      · exact (h.turned .locked hleads).lock _
      · exact h.turned .standby hleads
    · exact (h.turned .idle trivial).lock _
    · exact h.turned .idle trivial
  | standby =>
    rw [hl] at hleads
    simp only [ControlPlanes.lead, hl]
    split
    · exact h.turned (.fetched ..) ⟨hleads, Nat.le_refl _, fun hp => absurd hp false_ne_true⟩
    · exact h.turned .idle trivial
  | locked =>
    rw [hl] at hleads
    simp only [Undisturbed, hl, Leadership.Undisturbed] at ha
    simp only [ControlPlanes.lead, hl]
    split
    · exact h.turned (.fetched ..) ⟨hleads, Nat.le_refl _, fun _ => ⟨ha, Lib.Versioned.asOf_current rfl⟩⟩
    · exact h.led (of_standby rfl) rfl rfl id trivial
  | fetched stored version promote =>
    simp only [Undisturbed, hl, Leadership.Undisturbed] at ha
    simp only [ControlPlanes.lead, hl]
    exact h.reloaded hl ha
  | reloading left stored promote =>
    rw [hl] at hleads
    obtain ⟨hw, hpromote⟩ := hleads
    cases left with
    | cons m left =>
      simp only [ControlPlanes.lead, hl]
      refine h.led (of_standby hw) rfl rfl id ⟨hw, fun hp => ?_⟩
      obtain ⟨hq, hrow⟩ := hpromote hp
      refine ⟨hq, hrow.mono fun doc hd => ⟨hd.1, fun m' hm' => ?_⟩⟩
      by_cases hm : m' = m
      · subst hm
        dsimp only
        rw [update_self, hd.1]
      · dsimp only
        rw [update_of_ne hm]
        exact hd.2 m' (by simp [hm, hm'])
    | nil =>
      simp only [ControlPlanes.lead, hl]
      refine h.led (of_standby hw) rfl rfl (fun hb => absurd hb false_ne_true) ?_
      cases promote with
      | false => trivial
      | true =>
        obtain ⟨hq, hrow⟩ := hpromote rfl
        exact ⟨hw, rfl, hq, hrow.mono fun doc hd => funext fun m => hd.2 m List.not_mem_nil⟩
  | ready =>
    simp only [ControlPlanes.lead, hl]
    exact h.confirmed hl
  | unlocking =>
    obtain ⟨l, hlock⟩ := s.askUnlock_eq r answer
    simp only [ControlPlanes.lead, hl, hlock]
    exact (h.lock l).turned .idle trivial

lemma Consistent.lose (h : s.Consistent home) (noticed : Bool) : (s.lose r noticed).Consistent home := by
  have hg : Grows (s.replica r) { s.replica r with
      sessionAlive := false, isWriter := if noticed then false else (s.replica r).isWriter } := by
    cases noticed with
    | true => exact of_standby rfl
    | false => exact ⟨id, fun _ => le_rfl⟩
  exact (h.lock _).led hg rfl rfl id ((h.replicas r).leads.demote hg rfl rfl rfl)

lemma consistent_of_runs
    (h : Lib.Runs (step home) (Undisturbed home) (start version) s) : s.Consistent home := by
  refine h.invariant (.start version) fun s e ha hs => ?_
  cases e with
  | mutation t answer => exact hs.advance ha
  | leadership r answer => exact hs.lead ha
  | lose r noticed => exact hs.lose noticed

lemma row_advance (s : ControlPlanes R muts loaded) (r : R) (t : Nat) (answer : Answer) :
    (s.advance r t answer).row = s.row ∨ ∃ snapshot expected row, s.phase t = .expecting snapshot expected ∧
      s.row.swap expected snapshot = some row ∧ (s.advance r t answer).row = row := by
  unfold advance
  cases hp : s.phase t with
  | expecting snapshot expected =>
    dsimp only
    obtain heq | ⟨row, known, hs, heq⟩ := s.write_cases r answer expected snapshot <;> rw [heq]
    · exact .inl rfl
    · exact .inr ⟨snapshot, expected, row, rfl, hs, rfl⟩
  | waiting =>
    left
    dsimp only
    split <;> rfl
  | applied =>
    left
    dsimp only
    split_ifs <;> rfl
  | cloning left snapshot => cases left <;> exact .inl rfl
  | unlocking =>
    left
    obtain ⟨l, hl⟩ := s.askUnlock_eq r answer
    dsimp only
    rw [hl]
    rfl
  | failed retry =>
    left
    dsimp only
    split <;> rfl
  | restoring left stored retry => cases left <;> exact .inl rfl
  | _ => exact .inl rfl

lemma row_lead (s : ControlPlanes R muts loaded) (r : R) (answer : Answer) : (s.lead r answer).row = s.row := by
  unfold lead
  dsimp only
  split
  · split_ifs
    · split <;> rfl
    · split <;> rfl
  · split
    · split_ifs <;> rfl
    · rfl
    · rfl
  · split <;> rfl
  · split <;> rfl
  · rfl
  · rfl
  · rfl
  · rfl
  · obtain ⟨l, hl⟩ := s.askUnlock_eq r answer
    rw [hl]
    rfl

/-- In every undisturbed run of any number of replicas, a mutation that has returned Ok is in the row, and a write
extends the row it replaces. -/
theorem failover_keeps_committed {version : Nat}
    (h : Lib.Runs (step home) (Undisturbed home) (ControlPlanes.start version) s) :
    (∀ t, s.phase t = .returned true → Holds s.row.doc t) ∧
    ∀ e, (s.step home e).row = s.row ∨
      s.row.doc ≤ (s.step home e).row.doc ∧ (s.step home e).row.version = s.row.version + 1 := by
  have hs := consistent_of_runs h
  refine ⟨fun t ht => ?_, fun e => ?_⟩
  · exact hs.phaseAt ht rfl
  · cases e with
    | mutation t answer =>
      obtain heq | ⟨snapshot, expected, row, hp, hswap, heq⟩ := s.row_advance (home t) t answer
      · exact .inl heq
      · obtain ⟨hd, -, -, hver⟩ := hs.wrote hp hswap
        right
        change s.row.doc ≤ (s.advance (home t) t answer).row.doc ∧ (s.advance (home t) t answer).row.version = _
        rw [heq]
        exact ⟨hd, hver⟩
    | leadership r answer => exact .inl (s.row_lead r answer)
    | lose r noticed => exact .inl rfl

def creations : Nat → Mutation (List Nat) Unit := fun t => ⟨.indexes, fun v => .ok (v ++ [t])⟩

abbrev Pair := ControlPlanes Nat creations (fun _ => [])

def promotion (r : Nat) : List (ReplicaEvent Nat) := List.replicate 13 (.leadership r .answered)

def steps (t n : Nat) : List (ReplicaEvent Nat) := List.replicate n (.mutation t .answered)

instance forallHome (r : Nat) (P : Nat → Prop) [DecidablePred P] : Decidable (∀ t, id t = r → P t) :=
  decidable_of_iff (P r) ⟨fun h _ ht => ht.symm.subst h, fun h => h r rfl⟩

instance (s : Pair) (e : ReplicaEvent Nat) : Decidable (s.Undisturbed id e) := by
  cases e <;> unfold Undisturbed <;> infer_instance

def failover : List (ReplicaEvent Nat) :=
  promotion 0 ++ steps 0 13 ++ [.lose 0 true] ++ promotion 1 ++ steps 1 13

def overtaken : List (ReplicaEvent Nat) :=
  promotion 0 ++ steps 0 13 ++ steps 1 9 ++ [.lose 0 true] ++ promotion 1 ++ steps 1 4

theorem failover_overwrites : ∃ s : Pair, Lib.Runs (step id) (fun _ _ => True) (ControlPlanes.start 0) s ∧
      s.phase 0 = .returned true ∧ s.phase 1 = .returned true ∧ s.row.version = 2 ∧
      ¬ Holds s.row.doc 0 ∧ Holds s.row.doc 1 := by
  refine ⟨overtaken.foldl (step id) (ControlPlanes.start 0), ?_, rfl, rfl, rfl, by decide +kernel, by decide +kernel⟩
  exact Lib.Runs.start.foldl _ (by decide +kernel)

theorem failover_pair :
    ∃ s : Pair, Lib.Runs (step id) (Undisturbed id) (ControlPlanes.start 0) s ∧ s.phase 0 = .returned true ∧
      s.phase 1 = .returned true ∧ Holds s.row.doc 0 ∧ Holds s.row.doc 1 := by
  have hrun : Lib.Runs (step id) (Undisturbed id) (ControlPlanes.start 0)
      (failover.foldl (step id) (ControlPlanes.start 0) : Pair) :=
    Lib.Runs.start.foldl _ (by decide +kernel)
  have hkept := (failover_keeps_committed hrun).1
  exact ⟨_, hrun, rfl, rfl, hkept 0 rfl, hkept 1 rfl⟩

end ControlPlanes

end GrowlerDB.ControlPlane
