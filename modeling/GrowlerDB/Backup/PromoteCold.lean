import GrowlerDB.Lib.Runs
import Mathlib.Data.List.Basic

namespace GrowlerDB.Backup
open Lib Function

inductive PromoteStep (F : Type)
  | idle
  | fetching (rest : List F)
  | fetched
  | unmarked
  | synced
  | reclaimed
  deriving DecidableEq

/-- The files that a promotion under way has still to fetch. -/
def PromoteStep.rest {F : Type} : PromoteStep F → Option (List F)
  | .idle => none
  | .fetching rest => some rest
  | _ => some []

inductive WindowHandle
  | down
  | cold
  | hot
  deriving DecidableEq

/-- A window that is parked: its index files in the object store and in the local `index` directory. -/
structure ColdWindow (F B : Type) where
  objects : F → Option B
  disk : F → Option B
  marker : Bool
  /-- the removal of the marker is on disk -/
  durable : Bool
  handle : WindowHandle
  promote : PromoteStep F

inductive PromoteEvent (F : Type)
  /-- the watcher finds the window busy -/
  | tick
  | fetch (ok : Bool)
  | syncIndex (ok : Bool)
  | removeMarker (ok : Bool)
  | syncWindow (ok : Bool)
  /-- the best-effort delete under the window's prefix, and the objects it deletes -/
  | reclaim (gone : F → Bool)
  | openHot (ok : Bool)
  /-- whether a marker that was not removed durably is back -/
  | crash (back : Bool)
  | boot

namespace ColdWindow

variable {F B : Type} (files : List F) (contents : F → B)

def Whole (copy : F → Option B) : Prop := ∀ f ∈ files, copy f = some (contents f)

instance [DecidableEq B] (copy : F → Option B) : Decidable (Whole files contents copy) :=
  inferInstanceAs (Decidable (∀ f ∈ files, _))

/-- Boot opens the window cold exactly when its marker is there. -/
def opened (w : ColdWindow F B) : WindowHandle := if w.marker then .cold else .hot

/-- The copy that a handle reads. -/
def copy (w : ColdWindow F B) : WindowHandle → F → Option B
  | .cold => w.objects
  | .hot => w.disk
  | .down => fun _ => none

def step [DecidableEq F] [DecidableEq B] (w : ColdWindow F B) : PromoteEvent F → ColdWindow F B
  | .tick => if w.promote = .idle ∧ w.handle = .cold ∧ w.marker = true then { w with promote := .fetching files } else w
  | .fetch ok =>
    match w.promote with
    | .fetching (f :: rest) =>
      if ok = true ∧ (w.objects f).isSome then
        { w with disk := update w.disk f (w.objects f), promote := .fetching rest }
      else { w with promote := .idle }
    | _ => w
  | .syncIndex ok => if w.promote = .fetching [] then { w with promote := if ok then .fetched else .idle } else w
  | .removeMarker ok =>
    -- a failure is ignored
    if w.promote = .fetched then
      { w with marker := w.marker && !ok, durable := !ok, promote := .unmarked }
    else w
  | .syncWindow ok =>
    if w.promote = .unmarked then
      { w with durable := ok || w.durable, promote := if ok then .synced else .idle }
    else w
  | .reclaim gone =>
    if w.promote = .synced then
      { w with objects := fun f => if gone f then none else w.objects f, promote := .reclaimed }
    else w
  | .openHot ok =>
    if w.promote = .reclaimed then { w with handle := if ok then .hot else w.handle, promote := .idle } else w
  | .crash back => { w with
      handle := .down, promote := .idle, marker := w.marker || (back && !w.durable), durable := true }
  | .boot => if w.handle = .down ∧ Whole files contents (w.copy w.opened) then { w with handle := w.opened } else w

/-- A restart finds the whole window, and so does the handle that serves it. -/
def Kept (w : ColdWindow F B) : Prop :=
  Whole files contents (w.copy w.opened) ∧ (w.handle ≠ .down → Whole files contents (w.copy w.handle))

/-- The delete leaves the files of the window. -/
def Spares (w : ColdWindow F B) : PromoteEvent F → Prop
  | .reclaim gone => w.promote = .synced → ∀ f ∈ files, gone f = false
  | _ => True

structure Promoting (w : ColdWindow F B) : Prop where
  objects : Whole files contents w.objects
  disk : w.marker = false ∨ w.handle = .hot → Whole files contents w.disk
  fetched : ∀ rest ∈ w.promote.rest, ∀ f ∈ files, f ∉ rest → w.disk f = some (contents f)
  cold : w.promote ≠ .idle → w.handle = .cold

variable {files contents} {w : ColdWindow F B}

section

variable (h : w.Promoting files contents)
include h

lemma Promoting.kept : w.Kept files contents := by
  have hcopy : ∀ handle, (handle = .hot → w.marker = false ∨ w.handle = .hot) → handle ≠ .down →
      Whole files contents (w.copy handle) := by
    intro handle hhot hup
    cases handle with
    | down => exact absurd rfl hup
    | cold => exact h.objects
    | hot => exact h.disk (hhot rfl)
  refine ⟨hcopy _ ?_ ?_, hcopy _ .inr⟩ <;> cases hm : w.marker <;> simp [opened, hm]

lemma Promoting.whole (hrest : w.promote.rest = some []) :
    Whole files contents w.disk := fun f hf => h.fetched [] hrest f hf (by simp)

/-- Neither copy changes. -/
lemma Promoting.turn {w' : ColdWindow F B} (hobjects : w'.objects = w.objects)
    (hdisk : w'.disk = w.disk) (hrest : ∀ rest ∈ w'.promote.rest, rest ∈ w.promote.rest)
    (hlocal : w'.marker = false ∨ w'.handle = .hot → Whole files contents w.disk)
    (hcold : w'.promote ≠ .idle → w'.handle = .cold) : w'.Promoting files contents :=
  ⟨hobjects ▸ h.objects, hdisk ▸ hlocal, fun rest hr => hdisk ▸ h.fetched rest (hrest rest hr), hcold⟩

end

variable [DecidableEq F]

lemma Promoting.fetch (h : w.Promoting files contents) (hp : w.promote = .fetching (f :: rest)) :
    ({ w with disk := update w.disk f (w.objects f), promote := .fetching rest } : ColdWindow F B).Promoting
      files contents := by
  have hset : ∀ g ∈ files, (g ≠ f → w.disk g = some (contents g)) →
      update w.disk f (w.objects f) g = some (contents g) := by
    intro g hg hother
    by_cases hgf : g = f
    · rw [hgf, update_self]
      exact h.objects f (hgf ▸ hg)
    · rw [update_of_ne hgf]
      exact hother hgf
  refine ⟨h.objects, fun hlocal g hg => hset g hg fun _ => h.disk hlocal g hg, ?_, fun _ => h.cold (by simp [hp])⟩
  rintro _ ⟨⟩ g hg hnot
  exact hset g hg fun hgf => h.fetched (f :: rest) (by rw [hp]; rfl) g hg (by simp [hgf, hnot])

variable [DecidableEq B]

lemma Promoting.step (h : w.Promoting files contents) (e : PromoteEvent F) (hs : w.Spares files e) :
    (w.step files contents e).Promoting files contents := by
  cases e with
  | tick =>
    simp only [ColdWindow.step]
    split_ifs with hgo
    · refine ⟨h.objects, h.disk, ?_, fun _ => hgo.2.1⟩
      rintro _ ⟨⟩ f hf hnot
      exact absurd hf hnot
    · exact h
  | fetch ok =>
    simp only [ColdWindow.step]
    split
    · rename_i f rest hp
      split_ifs
      · exact h.fetch hp
      · exact h.turn rfl rfl nofun h.disk (fun hne => absurd rfl hne)
    · exact h
  | removeMarker ok =>
    simp only [ColdWindow.step]
    split_ifs with hp
    · have hrest : w.promote.rest = some [] := by rw [hp]; rfl
      exact h.turn rfl rfl (fun _ hr => hrest ▸ hr) (fun _ => h.whole hrest) fun _ => h.cold (by simp [hp])
    · exact h
  | reclaim gone =>
    simp only [ColdWindow.step]
    split_ifs with hp
    · have hsame : ∀ f ∈ files, (if gone f then none else w.objects f) = w.objects f := fun f hf => by simp [hs hp f hf]
      refine ⟨fun f hf => (hsame f hf).trans (h.objects f hf), h.disk, ?_, fun _ => h.cold (by simp [hp])⟩
      exact fun rest hr => h.fetched rest (by simpa [hp, PromoteStep.rest] using hr)
    · exact h
  | openHot ok =>
    simp only [ColdWindow.step]
    split_ifs with hp hok
    · exact h.turn rfl rfl nofun (fun _ => h.whole (by rw [hp]; rfl)) (fun hne => absurd rfl hne)
    · exact h.turn rfl rfl nofun h.disk (fun hne => absurd rfl hne)
    · exact h
  | crash back =>
    refine h.turn rfl rfl nofun (fun hlocal => h.disk (.inl ?_)) (fun hne => absurd rfl hne)
    simp only [ColdWindow.step, reduceCtorEq, or_false, Bool.or_eq_false_iff] at hlocal
    exact hlocal.1
  | boot =>
    simp only [ColdWindow.step]
    split_ifs with hgo
    · have hidle : w.promote = .idle := by
        by_contra hne
        simp [h.cold hne] at hgo
      refine h.turn rfl rfl (fun _ hr => hr) (fun hlocal => h.disk (.inl ?_)) (fun hne => absurd hidle hne)
      rcases hlocal with hm | hhot
      · exact hm
      · simpa [opened] using hhot
    · exact h
  | _ =>
    simp only [ColdWindow.step]
    split_ifs with hp hok
    · exact h.turn rfl rfl (by simp [hp, PromoteStep.rest]) h.disk fun _ => h.cold (by simp [hp])
    · exact h.turn rfl rfl nofun h.disk (fun hne => absurd rfl hne)
    · exact h

lemma spares_of_kept (h : w.Promoting files contents) (e : PromoteEvent F)
    (hk : (w.step files contents e).Kept files contents) : w.Spares files e := by
  cases e with
  | reclaim gone =>
    intro hp f hf
    have hcold := h.cold (by simp [hp])
    have hwhole := hk.2 (by simp [ColdWindow.step, hp, hcold]) f hf
    simp only [ColdWindow.step, hp, if_true, hcold, copy] at hwhole
    cases hgone : gone f with
    | false => rfl
    | true => simp [hgone] at hwhole
  | _ => trivial

/-- A parked window whose objects are whole. -/
def parkedAt (objects disk : F → Option B) : ColdWindow F B := ⟨objects, disk, true, true, .cold, .idle⟩

/-- Through a run that promotes, fails, crashes and boots, the window is kept in every state exactly if no delete
takes a file of it. -/
theorem promote_keeps_iff (files : List F) (contents : F → B) (objects disk : F → Option B)
    (h : Whole files contents objects) (events : List (PromoteEvent F)) :
    Always (Kept files contents) (ColdWindow.step files contents) (parkedAt objects disk) events ↔
      AllAllowed (ColdWindow.step files contents) (Spares files) (parkedAt objects disk) events := by
  have hstart : (parkedAt objects disk).Promoting files contents := ⟨h, by simp [parkedAt], nofun, fun _ => rfl⟩
  exact always_iff (I := Promoting files contents) (fun _ hw => hw.kept) (fun _ e hw => hw.step e)
    (fun _ e hw => spares_of_kept hw e) hstart events

def promotion (unmarked gone hot : Bool) : List (PromoteEvent Unit) :=
  [.tick, .fetch true, .syncIndex true, .removeMarker unmarked, .syncWindow true, .reclaim (fun _ => gone), .openHot hot]

def twoFiles : ColdWindow Bool Nat := parkedAt (fun f => some f.toNat) (fun _ => none)

/-- The fetch of the second file fails at first; then the node crashes before the removal of the marker is on disk,
and the hot shard does not open until the next boot. -/
def interrupted : List (PromoteEvent Bool) :=
  [.tick, .fetch true, .fetch false, .tick, .fetch true, .fetch true, .syncIndex true, .removeMarker true, .crash true,
    .boot, .tick, .fetch true, .fetch true, .syncIndex true, .removeMarker true, .syncWindow true,
    .reclaim (fun _ => false), .openHot false, .crash false, .boot]

theorem twoFiles_kept :
    Always (Kept [false, true] Bool.toNat) (ColdWindow.step [false, true] Bool.toNat) twoFiles interrupted ∧
      (interrupted.foldl (ColdWindow.step [false, true] Bool.toNat) twoFiles).handle = .hot := by
  have hwhole : Whole [false, true] Bool.toNat twoFiles.objects := by decide
  refine ⟨(promote_keeps_iff [false, true] Bool.toNat _ _ hwhole _).mpr ?_, by decide⟩
  simp [interrupted, AllAllowed, Spares]

def oneFile : ColdWindow Unit Nat := parkedAt (fun _ => some 7) (fun _ => none)

/-- The hot open fails after the delete, and the cold handle has no objects; the marker cannot be removed, and the
window does not open again. -/
theorem oneFile_lost : let after := List.foldl (ColdWindow.step [()] (fun _ => 7)) oneFile
    ((after (promotion true true false)).handle = .cold ∧ (after (promotion true true false)).objects () = none) ∧
      (after (promotion false true true ++ [.crash false, .boot])).handle = .down := by
  decide

end ColdWindow

end GrowlerDB.Backup
