import GrowlerDB.Connector.Resume
import GrowlerDB.Index.ExactlyOnce
import GrowlerDB.Lib.LinkedMap

namespace GrowlerDB.Connector
open Core Lib Replay List Option

section

variable {K : Type}

structure SourceRow (K : Type) where
  commitSnapshotId : Int
  op : DocOp K
  deriving DecidableEq

structure Commit (K : Type) where
  fromExclusive : Option Int
  checkpointSnapshot : Int
  rows : List (SourceRow K)
  deriving DecidableEq

def streamLoop (maxCommitRows : Nat) (current : Int) :
    List (SourceRow K) → Option Int → List (SourceRow K) → Int → List (Commit K)
  | [], cursor, buf, _ => [⟨cursor, current, buf⟩]
  | row :: rows, cursor, buf, bufEndSnapshot =>
    if buf ≠ [] ∧ row.commitSnapshotId ≠ bufEndSnapshot ∧ buf.length ≥ maxCommitRows then
      ⟨cursor, bufEndSnapshot, buf⟩ ::
        streamLoop maxCommitRows current rows (some bufEndSnapshot) [row] row.commitSnapshotId
    else streamLoop maxCommitRows current rows cursor (buf ++ [row]) row.commitSnapshotId

def streamCommits (rows : List (SourceRow K)) (maxCommitRows : Nat) (startSnapshotId : Option Int)
    (current : Int) : List (Commit K) :=
  streamLoop maxCommitRows current rows startSnapshotId [] (-1)

def startText : Option Int → String
  | none => "0"
  | some id => toString id

def batchId (table : String) (startSnapshotId : Option Int) (current : Int) : String :=
  table ++ "@" ++ startText startSnapshotId ++ "->" ++ toString current

section

variable (log : Changelog K)

def sequenceOf (id : Int) : Option Int :=
  ((log.snapshots.find? (fun s => s.snapshotId = id)).map SourceSnapshot.sequenceNumber).filter
    (fun seq => decide (0 < seq))

def checkpointOf (id : Int) : SourceCheckpoint := ⟨id, sequenceOf log id⟩

/-- Where a snapshot stands in the lineage; no snapshot stands before everything. -/
def placeOf (id : Option Int) : WithBot Int := position (id.map (checkpointOf log))

def changelogRows : List (Int × SourceRow K) :=
  log.snapshots.flatMap (fun s => s.ops.map (fun op => (s.sequenceNumber, ⟨s.snapshotId, op⟩)))

instance decidablePlaceLt : DecidableLT (WithBot Int)
  | _, none => isFalse not_lt_bot
  | none, some b => isTrue (WithBot.bot_lt_coe b)
  | some a, some b => decidable_of_iff (a < b) WithBot.coe_lt_coe.symm

instance decidablePlaceLe : DecidableLE (WithBot Int)
  | none, _ => isTrue bot_le
  | some a, none => isFalse (WithBot.not_coe_le_bot a)
  | some a, some b => decidable_of_iff (a ≤ b) WithBot.coe_le_coe.symm

def changelog (start : Option Int) (current : Int) : List (SourceRow K) :=
  ((changelogRows log).filter (fun r => decide (placeOf log start < r.1) &&
    decide ((r.1 : WithBot Int) ≤ placeOf log (some current)))).map Prod.snd

def scan (keep : K → Bool) (start : Option Int) (current : Int) : List (SourceRow K) :=
  (changelog log start current).filter (fun row => keep row.op.key)

end

variable {start : Option Int} {s : SourceSnapshot K}

section

variable {log : Changelog K} {keep : K → Bool}

/-- Commits that cut the window up to `head` at snapshots, each with the rows of its own window. -/
inductive Planned (log : Changelog K) (keep : K → Bool) (head : Int) : Option Int → List (Commit K) → Prop
  | last {start : Option Int} (forward : placeOf log start < placeOf log (some head)) :
      Planned log keep head start [⟨start, head, scan log keep start head⟩]
  | cut {start : Option Int} {s : SourceSnapshot K} (hs : s ∈ log.snapshots)
      (forward : placeOf log start < placeOf log (some s.snapshotId))
      (tail : Planned log keep head (some s.snapshotId) rest) :
      Planned log keep head start (⟨start, s.snapshotId, scan log keep start s.snapshotId⟩ :: rest)

lemma mem_changelogRows (h : (seq, row) ∈ changelogRows log) :
    ∃ s ∈ log.snapshots, s.sequenceNumber = seq ∧ s.snapshotId = row.commitSnapshotId := by
  obtain ⟨s, hs, hr⟩ := mem_flatMap.mp h
  obtain ⟨op, -, heq⟩ := mem_map.mp hr
  obtain ⟨rfl, rfl⟩ := Prod.mk.inj heq
  exact ⟨s, hs, rfl, rfl⟩

lemma changelogRows_ordered : (changelogRows log).Pairwise (fun a b => a.1 ≤ b.1) :=
  log.pairwise_rows SourceSnapshot.ops fun s => SourceRow.mk s.snapshotId

lemma scan_split (hlo : placeOf log start ≤ placeOf log (some e))
    (hhi : placeOf log (some e) ≤ placeOf log (some current)) :
    scan log keep start current = scan log keep start e ++ scan log keep (some e) current := by
  have hordered : (changelogRows log).Pairwise (fun a b => a.1 ≤ b.1) := changelogRows_ordered
  have hsplit := filter_split hordered hlo hhi
  unfold scan changelog
  rw [← filter_append, ← map_append]
  congr 2
  convert hsplit

variable (hlog : Numbered log)
include hlog

lemma checkpointOf_eq (hs : s ∈ log.snapshots) :
    checkpointOf log s.snapshotId = s.checkpoint := by
  have hfind : log.snapshots.find? (·.snapshotId = s.snapshotId) = some s := by
    cases hf : log.snapshots.find? (·.snapshotId = s.snapshotId) with
    | none => exact absurd (List.find?_eq_none.mp hf s hs) (by simp)
    | some t =>
      have hid : t.snapshotId = s.snapshotId := by simpa using List.find?_some hf
      rw [inj_on_of_nodup_map log.distinct (mem_of_find?_eq_some hf) hs hid]
  simp [checkpointOf, sequenceOf, hfind, SourceSnapshot.checkpoint, hlog s hs]

lemma placeOf_eq (hs : s ∈ log.snapshots) :
    placeOf log (some s.snapshotId) = (s.sequenceNumber : WithBot Int) := by
  rw [placeOf, map_some, checkpointOf_eq hlog hs]
  rfl

lemma place_of_row (h : (seq, row) ∈ changelogRows log) : placeOf log (some row.commitSnapshotId) = (seq : WithBot Int) := by
  obtain ⟨s, hs, rfl, hid⟩ := mem_changelogRows h
  rw [← hid, placeOf_eq hlog hs]

lemma scan_places (start : Option Int) (current : Int) :
    (scan log keep start current).Pairwise (fun a b =>
      placeOf log (some a.commitSnapshotId) ≤ placeOf log (some b.commitSnapshotId)) ∧
    ∀ row ∈ scan log keep start current, (∃ s ∈ log.snapshots, s.snapshotId = row.commitSnapshotId) ∧
      placeOf log start < placeOf log (some row.commitSnapshotId) ∧
      placeOf log (some row.commitSnapshotId) ≤ placeOf log (some current) := by
  constructor
  · unfold scan changelog
    refine Pairwise.filter _ (pairwise_map.mpr ?_)
    refine (changelogRows_ordered.filter _).imp_of_mem fun {a b} ha hb hab => ?_
    rw [place_of_row hlog (mem_filter.mp ha).1, place_of_row hlog (mem_filter.mp hb).1]
    exact WithBot.coe_le_coe.mpr hab
  · intro row hrow
    obtain ⟨⟨seq, r⟩, hr, rfl⟩ := mem_map.mp (mem_filter.mp hrow).1
    obtain ⟨hmem, hin⟩ := mem_filter.mp hr
    simp only [Bool.and_eq_true, decide_eq_true_eq] at hin
    obtain ⟨s, hs, -, hid⟩ := mem_changelogRows hmem
    rw [place_of_row hlog hmem]
    exact ⟨⟨s, hs, hid⟩, hin⟩

lemma scan_cut (hs : s ∈ log.snapshots)
    (hscan : buf ++ row :: rest = scan log keep start current)
    (hlast : buf.getLast?.map SourceRow.commitSnapshotId = some s.snapshotId)
    (hnext : row.commitSnapshotId ≠ s.snapshotId) :
    placeOf log start < placeOf log (some s.snapshotId) ∧
      placeOf log (some s.snapshotId) < placeOf log (some current) ∧
      buf = scan log keep start s.snapshotId ∧ row :: rest = scan log keep (some s.snapshotId) current := by
  obtain ⟨hord, hin⟩ := scan_places hlog start current
  rw [← hscan] at hord hin
  obtain ⟨hbuf, hrest, hcross⟩ := pairwise_append.mp hord
  obtain ⟨last, hlast', hid⟩ := map_eq_some_iff.mp hlast
  have hmem := mem_of_getLast? hlast'
  have hrow : placeOf log (some s.snapshotId) < placeOf log (some row.commitSnapshotId) := by
    have hle := hcross last hmem row mem_cons_self
    rw [hid] at hle
    obtain ⟨⟨t, ht, htid⟩, -⟩ := hin row (mem_append_right _ mem_cons_self)
    refine lt_of_le_of_ne hle fun heq => hnext ?_
    rw [← htid, placeOf_eq hlog hs, placeOf_eq hlog ht, WithBot.coe_inj] at heq
    rw [← htid, (Changelog.id_eq_iff ht hs).mpr heq.symm]
  have hearly : ∀ r ∈ buf, placeOf log (some r.commitSnapshotId) ≤ placeOf log (some s.snapshotId) := by
    intro r hr
    obtain ⟨init, rfl⟩ : ∃ init, buf = init ++ [last] := List.getLast?_eq_some_iff.mp hlast'
    rcases mem_append.mp hr with hr | hr
    · rw [← hid]
      exact (pairwise_append.mp hbuf).2.2 r hr last (mem_singleton.mpr rfl)
    · rw [mem_singleton.mp hr, hid]
  have hlate : ∀ r ∈ row :: rest, placeOf log (some s.snapshotId) < placeOf log (some r.commitSnapshotId) := by
    intro r hr
    rcases mem_cons.mp hr with rfl | hr
    · exact hrow
    · exact hrow.trans_le ((pairwise_cons.mp hrest).1 r hr)
  have hstart := (hin last (mem_append_left _ hmem)).2.1
  rw [hid] at hstart
  have hend := hrow.trans_le (hin row (mem_append_right _ mem_cons_self)).2.2
  -- both splits of the scan are the rows up to the snapshot and those after it
  have hsplit := hscan.trans (scan_split hstart.le hend.le)
  have hbefore : ∀ r ∈ scan log keep start s.snapshotId,
      placeOf log (some r.commitSnapshotId) ≤ placeOf log (some s.snapshotId) :=
    fun r hr => ((scan_places hlog start s.snapshotId).2 r hr).2.2
  have hafter : ∀ r ∈ scan log keep (some s.snapshotId) current,
      placeOf log (some s.snapshotId) < placeOf log (some r.commitSnapshotId) :=
    fun r hr => ((scan_places hlog (some s.snapshotId) current).2 r hr).2.1
  exact ⟨hstart, hend, append_inj_of_split hsplit hearly hlate hbefore hafter⟩

lemma planned_streamLoop (rows : List (SourceRow K))
    (hscan : buf ++ rows = scan log keep start current)
    (hbuf : buf ≠ [] → buf.getLast?.map SourceRow.commitSnapshotId = some bufEnd)
    (hforward : placeOf log start < placeOf log (some current)) :
    Planned log keep current start (streamLoop maxCommitRows current rows start buf bufEnd) := by
  induction rows generalizing start buf bufEnd with
  | nil =>
    rw [append_nil] at hscan
    rw [streamLoop, hscan]
    exact .last hforward
  | cons row rows ih =>
    rw [streamLoop]
    split_ifs with hcut
    · obtain ⟨hne, hnext, -⟩ := hcut
      obtain ⟨last, hlast, hid⟩ := map_eq_some_iff.mp (hbuf hne)
      have hmem : last ∈ scan log keep start current := by
        rw [← hscan]
        exact mem_append_left _ (mem_of_getLast? hlast)
      obtain ⟨⟨s, hs, hsid⟩, -⟩ := (scan_places hlog start current).2 last hmem
      obtain rfl : s.snapshotId = bufEnd := hsid.trans hid
      obtain ⟨hstart, hend, rfl, hrest⟩ := scan_cut hlog hs hscan (hbuf hne) hnext
      exact .cut hs hstart (ih hrest (fun _ => rfl) hend)
    · refine ih (by rw [append_assoc]; exact hscan) (fun _ => ?_) hforward
      rw [List.getLast?_append]
      rfl

lemma planned_streamCommits (maxCommitRows : Nat)
    (hforward : placeOf log start < placeOf log (some current)) :
    Planned log keep current start (streamCommits (scan log keep start current) maxCommitRows start current) :=
  planned_streamLoop hlog _ (nil_append _) (fun h => absurd rfl h) hforward

end

lemma gt_not_mem_startText (start : Option Int) : '>' ∉ (startText start ++ "-").toList := by
  rw [String.toList_append, mem_append, not_or]
  refine ⟨?_, by decide⟩
  cases start with
  | none => decide
  | some id => exact not_mem_toString (by decide) (by decide) id

lemma batchId_end
    (h : batchId table start e ++ suffix = batchId table start' e' ++ suffix) : e = e' := by
  have hsame : ∀ (start : Option Int) (e : Int), batchId table start e =
      table ++ "@" ++ (startText start ++ "-" ++ (">" ++ toString e)) := by
    intro start e
    simp only [batchId, String.append_assoc]
    rfl
  have hid := (String.append_left_inj _).mp h
  rw [hsame, hsame, String.append_right_inj] at hid
  have hchars : (startText start ++ "-").toList ++ '>' :: (toString e).toList =
      (startText start' ++ "-").toList ++ '>' :: (toString e').toList := by
    have happend : ∀ a b : String, (a ++ (">" ++ b)).toList = a.toList ++ '>' :: b.toList := by
      intro a b
      rw [String.toList_append, String.toList_append]
      rfl
    rw [← happend, ← happend, hid]
  obtain ⟨-, -, hend⟩ := (append_cons_inj_of_notMem (gt_not_mem_startText start)
    (not_mem_toString (by decide) (by decide) e)).mp hchars
  exact eq_of_toString_eq (String.toList_inj.mp hend)

/-- The rows of one snapshot stand together. -/
def Contiguous (rows : List (SourceRow K)) : Prop :=
  ∀ xs a ys b zs, rows = xs ++ a :: ys ++ b :: zs → a.commitSnapshotId = b.commitSnapshotId →
    ∀ r ∈ ys, r.commitSnapshotId = a.commitSnapshotId

/-- Without the rows of its final snapshot `e` a commit is below the cap, or empty. -/
def Capped (maxCommitRows : Nat) (rows : List (SourceRow K)) (e : Int) : Prop :=
  ∃ earlier final, rows = earlier ++ final ∧ earlier.length < max maxCommitRows 1 ∧
    ∀ r ∈ final, r.commitSnapshotId = e

structure ExactCut (maxCommitRows : Nat) (start : Option Int) (head : Int) (rows : List (SourceRow K))
    (commits : List (Commit K)) : Prop where
  rows : commits.flatMap Commit.rows = rows
  first : commits.head?.map Commit.fromExclusive = some start
  chained : commits.IsChain (fun c d => d.fromExclusive = some c.checkpointSnapshot)
  last : commits.getLast?.map Commit.checkpointSnapshot = some head
  unsplit : commits.Pairwise (fun c d => ∀ a ∈ c.rows, ∀ b ∈ d.rows, a.commitSnapshotId ≠ b.commitSnapshotId)
  ends : ∀ c ∈ commits.dropLast, c.rows.getLast?.map SourceRow.commitSnapshotId = some c.checkpointSnapshot
  capped : ∀ c ∈ commits, ∃ e, Capped maxCommitRows c.rows e

lemma Contiguous.of_append (h : Contiguous (xs ++ ys)) : Contiguous ys := by
  intro us a vs b ws heq
  exact h (xs ++ us) a vs b ws (by simp [heq])

/-- Where the snapshot changes, nothing after has a snapshot of before. -/
lemma Contiguous.apart {row : SourceRow K}
    (h : Contiguous (buf ++ row :: rows)) (hlast : buf.getLast?.map SourceRow.commitSnapshotId = some e)
    (hnext : row.commitSnapshotId ≠ e) :
    ∀ a ∈ buf, ∀ b ∈ row :: rows, a.commitSnapshotId ≠ b.commitSnapshotId := by
  intro a ha b hb heq
  obtain ⟨z, hz, rfl⟩ := map_eq_some_iff.mp hlast
  obtain ⟨init, rfl⟩ := List.getLast?_eq_some_iff.mp hz
  obtain ⟨us, vs, hrest⟩ := append_of_mem hb
  have hz : z.commitSnapshotId = a.commitSnapshotId := by
    rcases mem_append.mp ha with ha | ha
    · obtain ⟨xs, ys, rfl⟩ := append_of_mem ha
      exact h xs a (ys ++ z :: us) b vs (by simp [hrest]) heq z (by simp)
    · rw [mem_singleton.mp ha]
  cases us with
  | nil =>
    obtain ⟨rfl, -⟩ := cons.inj hrest
    exact hnext (heq.symm.trans hz.symm)
  | cons u us =>
    obtain ⟨rfl, rfl⟩ := cons.inj hrest
    exact hnext (h init z (row :: us) b vs (by simp) (hz.trans heq) row mem_cons_self)

lemma Capped.add (row : SourceRow K) (h : Capped maxCommitRows buf e)
    (hstay : ¬(buf ≠ [] ∧ row.commitSnapshotId ≠ e ∧ buf.length ≥ maxCommitRows)) :
    Capped maxCommitRows (buf ++ [row]) row.commitSnapshotId := by
  by_cases hsame : row.commitSnapshotId = e
  · obtain ⟨earlier, final, rfl, hlen, hfinal⟩ := h
    refine ⟨earlier, final ++ [row], by simp, hlen, fun r hr => ?_⟩
    rcases mem_append.mp hr with hr | hr
    · exact (hfinal r hr).trans hsame.symm
    · rw [mem_singleton.mp hr]
  · refine ⟨buf, [row], rfl, ?_, by simp⟩
    cases buf with
    | nil => simp
    | cons => simp_all

lemma streamLoop_exact {head : Int} (rows : List (SourceRow K)) (h : Contiguous (buf ++ rows))
    (hcap : Capped maxCommitRows buf e)
    (hlast : buf ≠ [] → buf.getLast?.map SourceRow.commitSnapshotId = some e) :
    ExactCut maxCommitRows cursor head (buf ++ rows) (streamLoop maxCommitRows head rows cursor buf e) := by
  induction rows generalizing cursor buf e with
  | nil =>
    rw [streamLoop]
    constructor <;> simp
    exact ⟨e, hcap⟩
  | cons row rows ih =>
    rw [streamLoop]
    split_ifs with hcut
    · obtain ⟨hne, hnext, -⟩ := hcut
      have hrest : ExactCut maxCommitRows (some e) head (row :: rows)
          (streamLoop maxCommitRows head rows (some e) [row] row.commitSnapshotId) :=
        ih h.of_append ⟨[], [row], rfl, by simp, by simp⟩ (fun _ => rfl)
      have hapart := h.apart (hlast hne) hnext
      generalize streamLoop _ _ _ _ _ _ = cs at hrest
      obtain ⟨c, cs, rfl⟩ : ∃ c t, cs = c :: t := by
        cases cs with
        | nil => cases hrest.first
        | cons c t => exact ⟨c, t, rfl⟩
      refine ⟨?_, rfl, ?_, hrest.last, ?_, ?_, ?_⟩
      · rw [flatMap_cons, hrest.rows]
      · exact .cons_cons (some.inj hrest.first) hrest.chained
      · refine .cons (fun d hd a ha b hb => hapart a ha b ?_) hrest.unsplit
        rw [← hrest.rows]
        exact mem_flatMap.mpr ⟨d, hd, hb⟩
      · rw [dropLast_cons_cons]
        exact forall_mem_cons.mpr ⟨hlast hne, hrest.ends⟩
      · exact forall_mem_cons.mpr ⟨⟨e, hcap⟩, hrest.capped⟩
    · rw [append_cons]
      rw [append_cons] at h
      exact ih h (hcap.add row hcut) (fun _ => by simp)

/-- The commits of a changelog whose snapshots stand together cut it at snapshots, in order, at the first
that reaches the cap. -/
theorem streamCommits_exact (rows : List (SourceRow K)) (h : Contiguous rows) (maxCommitRows : Nat)
    (start : Option Int) (current : Int) :
    ExactCut maxCommitRows start current rows (streamCommits rows maxCommitRows start current) :=
  streamLoop_exact rows (nil_append rows ▸ h) ⟨[], [], rfl, by simp, by simp⟩ (fun hne => absurd rfl hne)

def twoSnapshots : List (SourceRow Nat) := [⟨7, .delete 0⟩, ⟨7, .delete 1⟩, ⟨3, .delete 2⟩]

theorem twoSnapshots_exact : Contiguous twoSnapshots ∧
    ExactCut 1 none 3 twoSnapshots (streamCommits twoSnapshots 1 none 3) := by
  have h : Contiguous twoSnapshots := by
    intro xs a ys b zs heq hsame
    rcases xs with _ | ⟨_, _ | ⟨_, _ | ⟨_, xs⟩⟩⟩ <;> rcases ys with _ | ⟨_, _ | ⟨_, ys⟩⟩ <;> simp_all [twoSnapshots]
    obtain ⟨rfl, rfl, rfl, rfl⟩ := heq
    cases hsame
  exact ⟨h, streamCommits_exact _ h _ _ _⟩

end

open Index Function

structure KeyRouter (K : Type) where
  shards : Nat
  route : K → Nat
  route_lt : ∀ k, route k < shards

structure Job (K : Type) where
  table : String
  maxCommitRows : Nat
  keyString : K → String

variable {K : Type}

def Job.mapper (job : Job K) (rows : List (SourceRow K)) : List (DocOp K) :=
  (LinkedMap.ofList (rows.map (fun row => (job.keyString row.op.key, row.op)))).map Prod.snd

/-- No two keys of the changelog are rendered alike. -/
def KeysApart (log : Changelog K) (job : Job K) : Prop :=
  ∀ a ∈ changelogRows log, ∀ b ∈ changelogRows log,
    job.keyString a.2.op.key = job.keyString b.2.op.key → a.2.op.key = b.2.op.key

def Job.toBatch (job : Job K) (log : Changelog K) (start : Option Int) (c : Commit K) :
    CommitBatch K where
  ops := job.mapper c.rows
  checkpoint := checkpointOf log c.checkpointSnapshot
  batchId := batchId job.table c.fromExclusive c.checkpointSnapshot
  fromCheckpoint := c.fromExclusive.map (checkpointOf log)
  safeCheckpoint := start.map (checkpointOf log)

namespace ShardedWriteClient

def part (router : KeyRouter K) (batch : CommitBatch K) (ordinal : Nat) : CommitBatch K :=
  { batch with
    ops := batch.ops.filter (fun op => decide (router.route op.key = ordinal))
    batchId := batch.batchId ++ "#s" ++ toString ordinal }

def partition (router : KeyRouter K) (batch : CommitBatch K) : List (Nat × CommitBatch K) :=
  (List.range router.shards).map (fun ordinal => (ordinal, part router batch ordinal))

def resumeMin (lineage : Int → Option Int) (checkpoints : List (Option SourceCheckpoint)) : Option Int :=
  match checkpoints.mapM (fun c => c.map ShardCheckpoint.ofSource) with
  | none => none
  | some cps => resumeMinOf cps lineage

end ShardedWriteClient

/-- A connector process: the shards it owns, where it resumed, the cursor of its stream, the head and the unanswered
commits of its trigger, and the parts answered since its last fan-out. -/
structure Writer (K : Type) where
  group : Option (List Nat)
  resumeFrom : Option Int
  cursor : Option Int
  current : Option Int
  pending : List (Commit K)
  acked : List (Nat × String)

namespace Writer

variable (router : KeyRouter K) (w : Writer K)

def idle (group : Option (List Nat)) (resumeFrom : Option Int) : Writer K :=
  ⟨group, resumeFrom, resumeFrom, none, [], []⟩

def owned : List Nat := w.group.getD (List.range router.shards)

def keeps (k : K) : Bool :=
  match w.group with
  | none => true
  | some owned => decide (router.route k ∈ owned)

variable [DecidableEq K] (log : Changelog K) (job : Job K)

def parts (c : Commit K) : List (Nat × CommitBatch K) :=
  (ShardedWriteClient.partition router (job.toBatch log w.cursor c)).filter
    (fun e => decide (e.1 ∈ w.owned router))

def trigger (current : Int) : Writer K :=
  { w with
    current := some current
    pending := streamCommits (scan log (w.keeps router) w.cursor current) job.maxCommitRows w.cursor current }

def fail : Writer K := { w with cursor := w.resumeFrom, pending := [] }

def answer (rest : List (Commit K)) : Writer K :=
  { w with
    pending := rest
    cursor := if rest = [] then w.current else w.cursor }

end Writer

/-- The shards, the connectors, the newest head a connector has seen, and every part one has sent. -/
structure Ingesting {K : Type} [DecidableEq K] (T : Tantivy K (Document K)) where
  shards : Nat → Ingest T
  writers : Nat → Writer K
  head : Option Int
  sent : List (Nat × CommitBatch K)

namespace Ingesting

variable [DecidableEq K] {T : Tantivy K (Document K)} (log : Changelog K) (job : Job K)
  (router : KeyRouter K)

def start (chunk : Nat → Nat) : Ingesting T :=
  ⟨fun i => ⟨Shard.empty (chunk i), [], ⊥⟩, fun _ => .idle (some []) none, none, []⟩

section

variable (st : Ingesting T)

def setShard (i : Nat) (s : Ingest T) : Ingesting T :=
  { st with shards := update st.shards i s }

def setWriter (w : Nat) (x : Writer K) : Ingesting T :=
  { st with writers := update st.writers w x }

@[simp] lemma setShard_self (i : Nat) (s : Ingest T) : (st.setShard i s).shards i = s :=
  update_self ..

lemma setShard_forall {P : Nat → Ingest T → Prop}
    (hs : P i s) (h : ∀ j, j ≠ i → P j (st.shards j)) (j : Nat) : P j ((st.setShard i s).shards j) :=
  (forall_update_iff _ _).mpr ⟨hs, h⟩ j

lemma setWriter_forall {w : Nat} {P : Nat → Writer K → Prop}
    (hx : P w x) (h : ∀ v, v ≠ w → P v (st.writers v)) (v : Nat) : P v ((st.setWriter w x).writers v) :=
  (forall_update_iff _ _).mpr ⟨hx, h⟩ v

@[simp] lemma setWriter_self (w : Nat) (x : Writer K) :
    (st.setWriter w x).writers w = x :=
  update_self ..

lemma setWriter_ne {w v : Nat} (h : v ≠ w) (x : Writer K) :
    (st.setWriter w x).writers v = st.writers v :=
  update_of_ne h _ _

def resumeMin (st : Ingesting T) (owned : List Nat) : Option Int :=
  ShardedWriteClient.resumeMin (sequenceOf log) (owned.map (fun i => (st.shards i).checkpoint))

def resume (w : Nat) (group : Option (List Nat)) : Ingesting T :=
  st.setWriter w (.idle group (st.resumeMin log (group.getD (List.range router.shards))))

def trigger (st : Ingesting T) (w : Nat) (current : Int) : Ingesting T :=
  { st.setWriter w ((st.writers w).trigger router log job current) with head := some current }

def send (w : Nat) (c : Commit K) : Ingesting T :=
  { st.setWriter w { st.writers w with acked := [] } with
    sent := st.sent ++ (st.writers w).parts router log job c }

def stage (i : Nat) (r : StagedRef K) : Ingesting T :=
  st.setShard i { st.shards i with staged := r :: (st.shards i).staged }

def commit (i : Nat) (shard : Shard T) : Ingesting T :=
  st.setShard i { st.shards i with shard := shard }

def ack (w i : Nat) (r : StagedRef K) : Ingesting T :=
  st.setWriter w { st.writers w with acked := (i, r.batchId) :: (st.writers w).acked }

end

def crash (st : Ingesting T) (i : Nat) (r : StagedRef K) (plan : Plan K) (stop : Nat) : Ingesting T :=
  st.setShard i ⟨(st.shards i).shard.crash plan stop, [],
    max (st.shards i).furthest (commitEnd (st.shards i).shard [r])⟩

/-- One step of a connector or of a node. A part that was sent may be staged later and more than once; what is staged
may be committed, and the answer may be lost. -/
inductive Step (groups : Option (List Nat) → Prop) : Ingesting T → Ingesting T → Prop
  | started (w : Nat) (hg : groups group) :
      Step groups st (st.resume log router w group)
  | failed (w : Nat) : Step groups st (st.setWriter w (st.writers w).fail)
  | triggered (w : Nat) (idle : (st.writers w).pending = [])
      (hs : s ∈ log.snapshots) (later : placeOf log st.head ≤ placeOf log (some s.snapshotId))
      (new : (st.writers w).cursor ≠ some s.snapshotId)
      (ancestor : placeOf log (st.writers w).cursor ≤ placeOf log (some s.snapshotId)) :
      Step groups st (st.trigger log job router w s.snapshotId)
  | sent (w : Nat) (next : (st.writers w).pending = c :: rest) : Step groups st (st.send log job router w c)
  | staged (he : e ∈ st.sent) (ok : (st.shards e.1).shard.stageBatch order e.2 = .ok r) :
      Step groups st (st.stage e.1 r)
  | committed (held : r ∈ (st.shards i).staged)
      (ok : (st.shards i).shard.commitStaged [r] = .ok (shard, n)) : Step groups st (st.commit i shard)
  | acknowledged (w : Nat) (held : r ∈ (st.shards i).staged)
      (ok : (st.shards i).shard.commitStaged [r] = .ok (shard, n)) :
      Step groups st ((st.commit i shard).ack w i r)
  | crashed (held : r ∈ (st.shards i).staged)
      (ok : (st.shards i).shard.commitPlan [r] = .ok (plan, n)) : Step groups st (st.crash i r plan stop)
  | answered (w : Nat) (next : (st.writers w).pending = c :: rest)
      (acks : ∀ e ∈ (st.writers w).parts router log job c, (e.1, e.2.batchId) ∈ (st.writers w).acked) :
      Step groups st (st.setWriter w ((st.writers w).answer rest))

inductive Reached (groups : Option (List Nat) → Prop) (chunk : Nat → Nat) : Ingesting T → Prop
  | start : Reached groups chunk (start chunk)
  | step {st st' : Ingesting T} (h : Reached groups chunk st) (hs : Step log job router groups st st') :
      Reached groups chunk st'

variable (order : HashOrder (K × DocOp K)) (w : Nat)

def deliver (st : Ingesting T) (e : Nat × CommitBatch K) : Except StoreError (Ingesting T) := do
  let r ← (st.shards e.1).shard.stageBatch order e.2
  let (shard, _) ← (st.shards e.1).shard.commitStaged [r]
  .ok (((st.stage e.1 r).commit e.1 shard).ack w e.1 r)

def write (st : Ingesting T) (c : Commit K) : Except StoreError (Ingesting T) :=
  ((st.writers w).parts router log job c).foldlM (deliver order w) (st.send log job router w c)

def writeCommits (order : HashOrder (K × DocOp K)) (w : Nat) :
    List (Commit K) → Ingesting T → Except StoreError (Ingesting T)
  | [], st => .ok st
  | c :: rest, st => do
    let st ← st.write log job router order w c
    writeCommits order w rest (st.setWriter w ((st.writers w).answer rest))

def runOnce (current : Int) (st : Ingesting T) : Except StoreError (Ingesting T) :=
  if (st.writers w).cursor = some current then .ok st
  else
    let started := st.trigger log job router w current
    writeCommits log job router order w (started.writers w).pending started

end Ingesting

end GrowlerDB.Connector
