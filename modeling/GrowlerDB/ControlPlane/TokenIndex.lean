import GrowlerDB.Lib.OrdMap
import GrowlerDB.Lib.Runs
import Mathlib.Data.String.Basic

namespace GrowlerDB.ControlPlane.TokenIndex
open Function Lib List Option

structure ApiToken where
  id : String
  hash : String
  expiresAtMs : Option Int

def ApiToken.isExpired (t : ApiToken) (now : Int) : Bool := t.expiresAtMs.any (· ≤ now)

abbrev Tokens := BTreeMap String ApiToken

/-- Where a call stands between two locks; after a roll-back it only rebuilds the index. -/
inductive Phase
  | idle
  | rebuild (rolledBack : Bool)
  | write (read : Tokens) (rolledBack : Bool)
  | persist

structure Registry where
  tokens : Tokens
  tokenByHash : String → Option String
  calls : Nat → Phase

def Registry.enter (s : Registry) (k : Nat) (phase : Phase) : Registry := { s with calls := update s.calls k phase }

/-- Of tokens with one hash the last collected stays. -/
def hashIndex (tokens : Tokens) (hash : String) : Option String :=
  (tokens.entries.filter (·.2.hash = hash)).getLast?.map Prod.fst

def Registry.findToken (s : Registry) (hash : String) (now : Int) : Option ApiToken := do
  let id ← s.tokenByHash hash
  let token ← s.tokens.get? id
  if token.isExpired now then none else some token

inductive Event
  | createToken (k : Nat) (token : ApiToken) (now : Int)
  | revokeToken (k : Nat) (id : String)
  | read (k : Nat)
  | write (k : Nat)
  /-- With the tokens its roll-back loads, if it comes to one. -/
  | persistSnapshot (k : Nat) (loaded : Option Tokens)

def step (s : Registry) : Event → Registry
  | .createToken k token now =>
    match s.calls k with
    | .idle =>
      let live := s.tokens.filterMap fun _ t => if t.isExpired now then none else some t
      { s with tokens := live.insert token.id token }.enter k (.rebuild false)
    | _ => s
  | .revokeToken k id =>
    match s.calls k, s.tokens.get? id with
    | .idle, some _ => { s with tokens := s.tokens.remove id }.enter k (.rebuild false)
    | _, _ => s
  | .read k =>
    match s.calls k with
    | .rebuild rolledBack => s.enter k (.write s.tokens rolledBack)
    | _ => s
  | .write k =>
    match s.calls k with
    | .write read rolledBack =>
      { s with tokenByHash := hashIndex read }.enter k (if rolledBack then .idle else .persist)
    | _ => s
  | .persistSnapshot k loaded =>
    match s.calls k, loaded with
    | .persist, none => s.enter k .idle
    | .persist, some tokens => { s with tokens := tokens }.enter k (.rebuild true)
    | _, _ => s

/-- A rebuild writes while the tokens are as it read them. -/
def Undisturbed (s : Registry) : Event → Prop
  | .write k => ∀ read rolledBack, s.calls k = .write read rolledBack → read = s.tokens
  | _ => True

def Rebuilt (s : Registry) : Prop :=
  s.tokenByHash = hashIndex s.tokens ∨ ∃ k, s.calls k ≠ .idle ∧ s.calls k ≠ .persist

lemma rebuilt_enter (s : Registry) (k : Nat) (h : phase ≠ .idle ∧ phase ≠ .persist) : Rebuilt (s.enter k phase) :=
  .inr ⟨k, by simpa [Registry.enter] using h⟩

lemma Rebuilt.step (h : Rebuilt s) (ha : Undisturbed s e) : Rebuilt (step s e) := by
  cases e with
  | write k =>
    dsimp only [TokenIndex.step]
    split
    · rename_i read rolledBack hk
      exact .inl (congrArg hashIndex (ha read rolledBack hk))
    · exact h
  | persistSnapshot k loaded =>
    dsimp only [TokenIndex.step]
    split
    · rename_i hk
      refine h.imp_right fun ⟨j, hj⟩ => ⟨j, ?_⟩
      have hne : j ≠ k := fun heq => hj.2 (heq ▸ hk)
      simpa [Registry.enter, hne] using hj
    · exact rebuilt_enter _ k ⟨nofun, nofun⟩
    · exact h
  | _ =>
    dsimp only [TokenIndex.step]
    split
    · exact rebuilt_enter _ _ ⟨nofun, nofun⟩
    · exact h

/-- Once no call is in progress, a token is found by its hash exactly if it is registered and not expired, provided
that no rebuild was disturbed and no two registered tokens have one hash. -/
theorem find_token_exact {s₀ s : Registry} (hstart : s₀.tokenByHash = hashIndex s₀.tokens) (hrun : Runs step Undisturbed s₀ s)
    (hidle : ∀ k, s.calls k = .idle) (hdistinct : ∀ id t id' t', s.tokens.get? id = some t →
      s.tokens.get? id' = some t' → t.hash = t'.hash → id = id') (hash : String) (now : Int) (t : ApiToken) :
    s.findToken hash now = some t ↔
      ∃ id, s.tokens.get? id = some t ∧ t.hash = hash ∧ t.isExpired now = false := by
  have hindex : s.tokenByHash = hashIndex s.tokens :=
    (hrun.invariant (P := Rebuilt) (.inl hstart) fun _ _ ha h => h.step ha).resolve_right fun ⟨k, hk⟩ => hk.1 (hidle k)
  have hfound : ∀ id, hashIndex s.tokens hash = some id ↔ ∃ t, s.tokens.get? id = some t ∧ t.hash = hash := by
    intro id
    have hin : ∀ e, e ∈ s.tokens.entries.filter (·.2.hash = hash) ↔ s.tokens.get? e.1 = some e.2 ∧ e.2.hash = hash := by
      intro e
      rw [mem_filter, decide_eq_true_iff, ← BTreeMap.mem_entries]
    constructor
    · intro h
      obtain ⟨e, he, rfl⟩ := Option.map_eq_some_iff.mp h
      exact ⟨e.2, (hin e).mp (mem_of_getLast? he)⟩
    · rintro ⟨t, ht⟩
      obtain ⟨e, he⟩ := Option.isSome_iff_exists.mp (getLast?_isSome.mpr (ne_nil_of_mem ((hin (id, t)).mpr ht)))
      obtain ⟨hget, hsame⟩ := (hin e).mp (mem_of_getLast? he)
      rw [hashIndex, he, hdistinct id t e.1 e.2 ht.1 hget (ht.2.trans hsame.symm)]
      rfl
  simp only [Registry.findToken, hindex, bind, Option.bind_eq_some_iff, hfound]
  grind

def start : Registry := ⟨.empty, fun _ => none, fun _ => .idle⟩

/-- A token is created while another is revoked; the revocation fails and is rolled back to the stored tokens. -/
def interleaved : Registry :=
  foldl step ⟨BTreeMap.empty.insert "b" ⟨"b", "h", none⟩, hashIndex (BTreeMap.empty.insert "b" ⟨"b", "h", none⟩), fun _ => .idle⟩
    [.createToken 0 ⟨"a", "g", none⟩ 0, .revokeToken 1 "b", .read 0, .read 1, .write 1, .write 0,
      .persistSnapshot 1 (some (BTreeMap.empty.insert "b" ⟨"b", "h", none⟩)), .read 1, .write 1, .persistSnapshot 0 none]

theorem find_token_after_rollback : interleaved.findToken "h" 0 = some ⟨"b", "h", none⟩ ∧
    interleaved.findToken "g" 0 = none := by
  have honly : ∀ id t, interleaved.tokens.get? id = some t → id = "b" ∧ t = ⟨"b", "h", none⟩ := by
    intro id t h
    cases mem_singleton.mp (BTreeMap.mem_entries.mpr h)
    exact ⟨rfl, rfl⟩
  have hfind := find_token_exact (s := interleaved) rfl
    (Runs.foldl .start _ ⟨trivial, trivial, trivial, trivial, fun _ _ h => by cases h; rfl, fun _ _ h => by cases h; rfl,
      trivial, trivial, fun _ _ h => by cases h; rfl, trivial, trivial⟩)
    (fun k => by rcases k with _ | _ | k <;> rfl)
    fun id t id' t' h h' _ => (honly id t h).1.trans (honly id' t' h').1.symm
  refine ⟨(hfind ..).mpr ⟨"b", rfl, rfl, rfl⟩, eq_none_iff_forall_ne_some.mpr fun t ht => ?_⟩
  obtain ⟨id, hid, hhash, -⟩ := (hfind ..).mp ht
  rw [(honly id t hid).2] at hhash
  simp at hhash

/-- A rebuild that read before a call created a token writes its index after that call's. -/
theorem find_token_stale :
    let s := foldl step start [.createToken 0 ⟨"a", "g", none⟩ 0, .read 0, .createToken 1 ⟨"b", "h", none⟩ 0, .read 1,
      .write 1, .write 0, .persistSnapshot 0 none, .persistSnapshot 1 none]
    (∀ k, s.calls k = .idle) ∧ s.tokens.get? "b" = some ⟨"b", "h", none⟩ ∧ s.findToken "h" 0 = none := by
  refine ⟨fun k => ?_, rfl, rfl⟩
  rcases k with _ | _ | k <;> rfl

end GrowlerDB.ControlPlane.TokenIndex
