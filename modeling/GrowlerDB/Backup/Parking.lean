import GrowlerDB.Lib.Runs
import Mathlib.Data.List.Basic

namespace GrowlerDB.Backup
open Lib Option

variable {Op : Type}

/-- A copy of the index files in the object store. The segments hold the operations; `meta.json` lists the
segments of its own layout. -/
structure ParkedIndex (Op : Type) where
  docs : List Op
  segments : Nat
  metaJson : Nat

def ParkedIndex.docs? (copy : ParkedIndex Op) : Option (List Op) :=
  if copy.segments = copy.metaJson then some copy.docs else none

structure ColdMarker where
  snapshot : Nat
  bundled : Bool

inductive MarkerFile
  | absent
  | torn
  | written (marker : ColdMarker)

inductive Serving (Op : Type)
  | down
  | hot
  | cold (docs : List Op)

inductive ParkPhase (Op : Type)
  | idle
  | backedUp (snapshot : Nat) (docs : List Op) (layout : Nat)
  /-- `split.bundle` is written, and its layout is to be recorded -/
  | bundling (snapshot : Nat) (layout : Nat × Nat)
  | bundled (marker : ColdMarker)
  | marked (marker : ColdMarker)
  | published (marker : ColdMarker)
  | opened (marker : ColdMarker) (docs : List Op)
  | swapped (marker : ColdMarker)
  | checked

structure ParkedWindow (Op : Type) where
  /-- the local `index` directory -/
  bulk : Bool
  docs : List Op
  /-- changes with every commit and every compaction -/
  layout : Nat
  /-- the snapshot in the local `aux.redb`, which the cold shard shares -/
  snapshot : Nat
  marker : MarkerFile
  /-- the index files as single objects -/
  files : Option (ParkedIndex Op)
  /-- `split.bundle` -/
  bundle : Option (ParkedIndex Op)
  /-- `split.manifest`: where the files of a bundle of these segments and this `meta.json` begin and end -/
  bundleLayout : Option (Nat × Nat)
  serving : Serving Op
  /-- commits that hold the hot shard -/
  writers : List Op
  park : ParkPhase Op
  acknowledged : List Op

inductive ParkEvent (Op : Type)
  | hold (op : Op)
  | commit (op : Op)
  | compact
  | backUp (ok : Bool)
  | bundle (ok : Bool)
  /-- the layout of the bundle, and then whether the single objects are deleted -/
  | bundleManifest (ok reclaimed : Bool)
  | mark (ok : Bool)
  | publish (ok : Bool)
  | openCold (ok : Bool)
  | swap
  | check
  | evict (ok : Bool)
  | crash
  | crashMarking
  | boot

namespace ParkedWindow

variable (w : ParkedWindow Op)

/-- A bundle is read by the recorded layout, so it has to be its own. -/
def unbundled : Option (ParkedIndex Op) := w.bundle.filter (fun b => w.bundleLayout = some (b.segments, b.metaJson))

def parked (marker : ColdMarker) : Option (List Op) :=
  (if marker.bundled then w.unbundled else w.files).bind ParkedIndex.docs?

/-- Boot opens the window cold exactly when its marker file is there. -/
def boot : Option (Serving Op) :=
  match w.marker with
  | .absent => if w.bulk then some .hot else none
  | .torn => none
  | .written marker => (w.parked marker).map .cold

def contents : Serving Op → Option (List Op)
  | .down => none
  | .hot => some w.docs
  | .cold docs => some docs

section
variable [DecidableEq Op]

def step (w : ParkedWindow Op) : ParkEvent Op → ParkedWindow Op
  | .hold op =>
    match w.serving with
    | .hot => { w with writers := op :: w.writers }
    | _ => w
  | .commit op =>
    if op ∈ w.writers ∧ w.bulk = true then { w with
      docs := w.docs ++ [op], layout := w.layout + 1, snapshot := w.snapshot + 1
      writers := w.writers.erase op, acknowledged := w.acknowledged ++ [op] }
    else { w with writers := w.writers.erase op }
  | .compact => if w.bulk then { w with layout := w.layout + 1 } else w
  | .backUp ok =>
    match w.park, w.serving with
    | .idle, .hot =>
      if ok then { w with
        files := some ⟨w.docs, w.layout, w.layout⟩, park := .backedUp w.snapshot w.docs w.layout }
      else w
    | _, _ => w
  | .bundle ok =>
    match w.park with
    | .backedUp snapshot docs layout =>
      -- the segments are those of the backup, and `meta.json` is read from the directory as it is now
      if ok then { w with bundle := some ⟨docs, layout, w.layout⟩, park := .bundling snapshot (layout, w.layout) }
      else { w with park := .bundled ⟨snapshot, false⟩ }
    | _ => w
  | .bundleManifest ok reclaimed =>
    match w.park with
    | .bundling snapshot layout =>
      if ok then { w with
        bundleLayout := some layout, files := if reclaimed then none else w.files, park := .bundled ⟨snapshot, true⟩ }
      else { w with park := .bundled ⟨snapshot, false⟩ }
    | _ => w
  | .mark ok =>
    match w.park with
    | .bundled marker =>
      if ok then { w with marker := .written marker, park := .marked marker }
      else { w with marker := .torn, park := .idle }
    | _ => w
  | .publish ok =>
    match w.park with
    | .marked marker => { w with park := if ok then .published marker else .idle }
    | _ => w
  | .openCold ok =>
    match w.park with
    | .published marker =>
      match (if ok then w.parked marker else none) with
      | some docs => { w with park := .opened marker docs }
      | none => { w with park := .idle }
    | _ => w
  | .swap =>
    match w.park with
    | .opened marker docs => { w with serving := .cold docs, park := .swapped marker }
    | _ => w
  | .check =>
    match w.park with
    | .swapped marker =>
      if w.snapshot ≠ marker.snapshot then { w with serving := .hot, park := .idle }
      else { w with park := .checked }
    | _ => w
  | .evict ok =>
    match w.park with
    | .checked => { w with bulk := if ok then false else w.bulk, park := .idle }
    | _ => w
  | .crash => { w with serving := .down, writers := [], park := .idle }
  | .crashMarking =>
    match w.park with
    | .bundled _ => { w with serving := .down, writers := [], park := .idle, marker := .torn }
    | _ => w
  | .boot =>
    match w.serving with
    | .down => { w with serving := w.boot.getD .down }
    | _ => w

def fresh : ParkedWindow Op := ⟨true, [], 0, 0, .absent, none, none, none, .hot, [], .idle, []⟩

def run (w : ParkedWindow Op) (events : List (ParkEvent Op)) : ParkedWindow Op := events.foldl step w

end

/-- No commit lands from a pass's backup on while the pass runs or a marker is there; no compaction comes between
backup and bundle, nor before a bundle that replaces one to which a marker leads; the marker is written whole; the
objects stay while a marker leads to them. -/
def Unraced : ParkEvent Op → Prop
  | .commit op => op ∈ w.writers → w.bulk = true → w.park = .idle ∧ w.marker = .absent
  | .compact => ∀ snapshot docs layout, w.park ≠ .backedUp snapshot docs layout
  | .bundle ok => ok = true → ∀ snapshot docs layout, w.park = .backedUp snapshot docs layout →
      ∀ marker, w.marker = .written marker → marker.bundled = true → w.bundleLayout = some (layout, w.layout)
  | .bundleManifest ok reclaimed => ok = true → reclaimed = true →
      ∀ marker, w.marker = .written marker → marker.bundled = true
  | .mark ok => ok = true
  | .crashMarking => ∀ marker, w.park ≠ .bundled marker
  | _ => True

variable {w}

def Holds (w : ParkedWindow Op) (docs : List Op) : Prop := ∀ op ∈ w.acknowledged, op ∈ docs

def PhaseSafe (w : ParkedWindow Op) : Prop :=
  match w.park with
  | .idle => True
  | .backedUp _ docs layout => layout = w.layout ∧ w.files = some ⟨docs, layout, layout⟩ ∧ w.Holds docs
  | .bundling _ layout => ∃ docs, w.bundle = some ⟨docs, layout.1, layout.2⟩ ∧ layout.1 = layout.2 ∧
      w.files = some ⟨docs, layout.1, layout.1⟩ ∧ w.Holds docs
  | .bundled marker => ∃ docs, w.parked marker = some docs ∧ w.Holds docs
  | .marked marker | .published marker | .swapped marker => w.marker = .written marker
  | .opened marker docs => w.marker = .written marker ∧ w.Holds docs
  | .checked => ∃ marker, w.marker = .written marker

/-- The local window or the copy that its marker leads to has every acknowledged operation. -/
structure Safe (w : ParkedWindow Op) : Prop where
  docs : w.Holds w.docs
  whole : w.marker ≠ .torn
  absent : w.marker = .absent → w.bulk = true
  written : ∀ marker, w.marker = .written marker → ∃ docs, w.parked marker = some docs ∧ w.Holds docs
  cold : ∀ docs, w.serving = .cold docs → w.Holds docs ∧ ∃ marker, w.marker = .written marker
  phase : w.PhaseSafe

lemma Safe.boot (h : w.Safe) :
    ∃ serving docs, w.boot = some serving ∧ w.contents serving = some docs ∧ w.Holds docs := by
  cases hm : w.marker with
  | absent => exact ⟨.hot, w.docs, by simp [ParkedWindow.boot, hm, h.absent hm], rfl, h.docs⟩
  | torn => exact absurd hm h.whole
  | written marker =>
    obtain ⟨docs, hparked, hholds⟩ := h.written marker hm
    exact ⟨.cold docs, docs, by simp [ParkedWindow.boot, hm, hparked], rfl, hholds⟩

lemma Safe.inPhase (h : w.Safe) (hpark : w.park = p) : ({ w with park := p } : ParkedWindow Op).PhaseSafe :=
  hpark ▸ h.phase

lemma Safe.setPark (h : w.Safe) {park : ParkPhase Op} (hphase : ({ w with park := park } : ParkedWindow Op).PhaseSafe) :
    ({ w with park := park } : ParkedWindow Op).Safe :=
  ⟨h.docs, h.whole, h.absent, h.written, h.cold, hphase⟩

lemma Safe.stop (h : w.Safe) : ({ w with serving := .down, writers := [], park := .idle } : ParkedWindow Op).Safe :=
  ⟨h.docs, h.whole, h.absent, h.written, nofun, trivial⟩

section
variable [DecidableEq Op]

section

variable (h : w.Safe)
include h

lemma Safe.commit {op : Op} (hu : w.Unraced (.commit op)) : (w.step (.commit op)).Safe := by
  simp only [step]
  split_ifs with hcommits
  · obtain ⟨hidle, habsent⟩ := hu hcommits.1 hcommits.2
    have hholds : ∀ op' ∈ w.acknowledged ++ [op], op' ∈ w.docs ++ [op] := by
      intro op' hop'
      rcases List.mem_append.mp hop' with hold | hnew
      · exact List.mem_append_left _ (h.docs op' hold)
      · exact List.mem_append_right _ hnew
    refine ⟨hholds, h.whole, h.absent, fun marker hm => ?_, fun docs hs => ?_, ?_⟩
    · simp [habsent] at hm
    · obtain ⟨-, marker, hm⟩ := h.cold docs hs
      simp [habsent] at hm
    · simp [PhaseSafe, hidle]
  · exact ⟨h.docs, h.whole, h.absent, h.written, h.cold, h.phase⟩

lemma Safe.compact (hu : w.Unraced .compact) : (w.step .compact).Safe := by
  simp only [step]
  split_ifs
  · refine ⟨h.docs, h.whole, h.absent, h.written, h.cold, ?_⟩
    have hphase := h.phase
    unfold PhaseSafe at hphase ⊢
    cases hp : w.park with
    | backedUp snapshot docs layout => exact absurd hp (hu snapshot docs layout)
    | idle => trivial
    | bundling _ _ | bundled _ | marked _ | published _ | opened _ _ | swapped _ | checked =>
      simp only [hp] at hphase ⊢
      exact hphase
  · exact h

lemma Safe.backUp (ok : Bool) : (w.step (.backUp ok)).Safe := by
  simp only [step]
  split
  · split_ifs
    · refine ⟨h.docs, h.whole, h.absent, ?_, h.cold, rfl, rfl, h.docs⟩
      rintro ⟨snapshot, bundled⟩ hm
      cases bundled with
      | true => exact h.written ⟨snapshot, true⟩ hm
      | false => exact ⟨w.docs, by simp [parked, ParkedIndex.docs?], h.docs⟩
    · exact h
  · exact h

lemma Safe.bundle (hu : w.Unraced (.bundle ok)) : (w.step (.bundle ok)).Safe := by
  simp only [step]
  split
  · rename_i snapshot docs layout hpark
    obtain ⟨hwhole, hfiles, hholds⟩ := h.inPhase hpark
    have hwhole : layout = w.layout := hwhole
    cases ok with
    | true =>
      refine ⟨h.docs, h.whole, h.absent, ?_, h.cold, docs, rfl, hwhole, hfiles, hholds⟩
      rintro ⟨snapshot', bundled⟩ hm
      cases bundled with
      | true =>
        -- the recorded layout is also that of the new bundle
        have hlayout := hu rfl _ _ _ hpark _ hm rfl
        exact ⟨docs, by simp [parked, unbundled, hlayout, Option.filter, ParkedIndex.docs?, hwhole], hholds⟩
      | false => exact h.written ⟨snapshot', false⟩ hm
    | false => exact h.setPark ⟨docs, by simp [parked, show w.files = _ from hfiles, ParkedIndex.docs?], hholds⟩
  · exact h

lemma Safe.bundleManifest (hu : w.Unraced (.bundleManifest ok reclaimed)) :
    (w.step (.bundleManifest ok reclaimed)).Safe := by
  simp only [step]
  split
  · rename_i snapshot layout hpark
    obtain ⟨segments, metaJson⟩ := layout
    obtain ⟨docs, hbundle, hwhole, hfiles, hholds⟩ := h.inPhase hpark
    have hbundle : w.bundle = some ⟨docs, segments, metaJson⟩ := hbundle
    have hwhole : segments = metaJson := hwhole
    cases ok with
    | true =>
      refine ⟨h.docs, h.whole, h.absent, ?_, h.cold, docs, by simp [parked, unbundled, hbundle, Option.filter, ParkedIndex.docs?, hwhole],
        hholds⟩
      rintro ⟨snapshot', bundled⟩ hm
      cases bundled with
      | true => exact ⟨docs, by simp [parked, unbundled, hbundle, Option.filter, ParkedIndex.docs?, hwhole], hholds⟩
      | false =>
        -- the marker leads to the single objects, so they are not deleted
        cases reclaimed with
        | true => cases hu rfl rfl _ hm
        | false => exact h.written ⟨snapshot', false⟩ hm
    | false => exact h.setPark ⟨docs, by simp [parked, show w.files = _ from hfiles, ParkedIndex.docs?], hholds⟩
  · exact h

lemma Safe.mark (hu : w.Unraced (.mark ok)) : (w.step (.mark ok)).Safe := by
  obtain rfl : ok := hu
  simp only [step]
  split
  · rename_i marker hpark
    have hphase := h.inPhase hpark
    refine ⟨h.docs, nofun, nofun, ?_, fun docs hs => ⟨(h.cold docs hs).1, marker, rfl⟩, rfl⟩
    intro marker' hm
    obtain rfl := MarkerFile.written.inj hm
    exact hphase
  · exact h

lemma Safe.openCold (ok : Bool) : (w.step (.openCold ok)).Safe := by
  simp only [step]
  split
  · rename_i marker hpark
    have hphase := h.inPhase hpark
    split
    · rename_i docs hopened
      split_ifs at hopened
      obtain ⟨docs', hparked, hholds⟩ := h.written marker hphase
      rw [hopened] at hparked
      cases hparked
      exact h.setPark ⟨hphase, hholds⟩
    · exact h.setPark trivial
  · exact h

lemma Safe.step (hu : w.Unraced e) : (w.step e).Safe := by
  cases e with
  | hold op =>
    simp only [ParkedWindow.step]
    split
    · exact ⟨h.docs, h.whole, h.absent, h.written, h.cold, h.phase⟩
    · exact h
  | commit op => exact h.commit hu
  | compact => exact h.compact hu
  | backUp ok => exact h.backUp ok
  | bundle ok => exact h.bundle hu
  | bundleManifest ok reclaimed => exact h.bundleManifest hu
  | mark ok => exact h.mark hu
  | publish ok =>
    simp only [ParkedWindow.step]
    split
    · rename_i marker hpark
      have hphase := h.inPhase hpark
      cases ok with
      | true => exact h.setPark hphase
      | false => exact h.setPark trivial
    · exact h
  | openCold ok => exact h.openCold ok
  | swap =>
    simp only [ParkedWindow.step]
    split
    · rename_i marker docs hpark
      have hphase := h.inPhase hpark
      refine ⟨h.docs, h.whole, h.absent, h.written, fun docs' hs => ?_, hphase.1⟩
      obtain rfl := Serving.cold.inj hs
      exact ⟨hphase.2, marker, hphase.1⟩
    · exact h
  | check =>
    simp only [ParkedWindow.step]
    split
    · rename_i marker hpark
      have hphase := h.inPhase hpark
      split_ifs
      · exact ⟨h.docs, h.whole, h.absent, h.written, nofun, trivial⟩
      · exact h.setPark ⟨marker, hphase⟩
    · exact h
  | evict ok =>
    simp only [ParkedWindow.step]
    split
    · rename_i hpark
      obtain ⟨marker, hm⟩ := h.inPhase hpark
      refine ⟨h.docs, h.whole, fun habsent => ?_, h.written, h.cold, trivial⟩
      cases habsent.symm.trans hm
    · exact h
  | crash => exact h.stop
  | crashMarking =>
    simp only [ParkedWindow.step]
    split
    · exact absurd ‹_› (hu _)
    · exact h
  | boot =>
    simp only [ParkedWindow.step]
    split
    · obtain ⟨serving, docs, hboot, hcontents, hholds⟩ := h.boot
      rw [hboot, getD_some]
      refine ⟨h.docs, h.whole, h.absent, h.written, fun docs' hs => ?_, h.phase⟩
      obtain rfl : serving = .cold docs' := hs
      cases hcontents
      unfold ParkedWindow.boot at hboot
      split at hboot
      · split_ifs at hboot
        cases hboot
      · cases hboot
      · exact ⟨hholds, _, ‹_›⟩
    · exact h

end

end

namespace OneWindow

def first : List (ParkEvent Nat) := [.hold 1, .commit 1]

def cutOver : List (ParkEvent Nat) := [.publish true, .openCold true, .swap, .check]

def bundled : List (ParkEvent Nat) := [.bundle true, .bundleManifest true true, .mark true]

def late : List (ParkEvent Nat) := first ++ .backUp true :: bundled ++ [.hold 2] ++ cutOver ++ [.commit 2]

def compacted : List (ParkEvent Nat) := first ++ [.backUp true, .compact] ++ bundled ++ cutOver ++ [.crash]

end OneWindow

end ParkedWindow

end GrowlerDB.Backup
