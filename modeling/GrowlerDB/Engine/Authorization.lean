import GrowlerDB.Engine.Gateway
import GrowlerDB.Lib.Results
import Mathlib.Data.List.DropRight

namespace GrowlerDB.Engine
open Lib List Text

structure Verified where
  principal : String
  tenant : Option String
  roles : List String
  /-- The indexes the caller is restricted to; none means no restriction. -/
  indexes : List String

structure Metadata where
  authorization : Option String
  principal : Option String
  tenant : Option String
  roles : Option String
  indexes : Option String

def stripIdentity (md : Metadata) : Metadata := ⟨md.authorization, none, none, none, none⟩

section

variable (header : String → Bool)

def stampText (text message : String) : Except RpcStatus (Option String) :=
  if header text then .ok (some text) else .error ⟨.unauthenticated, message⟩

def stampTenant : Option String → Except RpcStatus (Option String)
  | none => .ok none
  | some tenant => stampText header tenant "tenant claim is not a valid identifier"

def stampList (items : List String) (message : String) : Except RpcStatus (Option String) :=
  if items = [] then .ok none else stampText header (",".intercalate items) message

def authenticate (authn : Option String → Except String Verified) (md : Metadata) :
    Except RpcStatus (Verified × Metadata) := do
  let verified ← (authn md.authorization).mapError (⟨.unauthenticated, ·⟩)
  let principal ← stampText header verified.principal "authenticated principal is not a valid identifier"
  let tenant ← stampTenant header verified.tenant
  let roles ← stampList header verified.roles "a role claim is not a valid header value"
  let indexes ← stampList header verified.indexes "an index allowlist entry is not a valid header value"
  return (verified, ⟨md.authorization, principal, tenant, roles, indexes⟩)

end

def splitCsv (value : Option String) : List String :=
  match value with
  | none => []
  | some s => ((s.toList.splitOn ',').map (fun r => Text.trim (String.ofList r))).filter (· ≠ "")

inductive Scope
  | search
  | indexRead
  | indexWrite
  | admin
  | ops
  deriving DecidableEq

def Scope.asStr : Scope → String
  | .search => "search"
  | .indexRead => "index.read"
  | .indexWrite => "index.write"
  | .admin => "admin"
  | .ops => "ops"

def scopeForMethod (method : String) : Option Scope :=
  if method ∈ ["Search", "Suggest", "Aggregate", "GetByKey", "Explain", "OpenPit", "ClosePit", "Export",
      "ListSavedQueries", "SaveSavedQuery", "DeleteSavedQuery"] then some .search
  else if method ∈ ["DescribeIndex", "GetIndex", "ListIndexes", "ListAliases", "DescribeSource", "IngestionStatus",
      "GetCheckpoint", "ListRoles", "ListActivity", "GetLicense", "GetReindexJob", "ListReindexJobs",
      "ReindexStatus"] then some .indexRead
  else if method = "Write" then some .indexWrite
  else if method ∈ ["CreateIndex", "DropIndex", "AlterIndex", "ReindexIndex", "StartReindexJob", "CancelReindexJob",
      "CancelReindex", "SetAlias", "DropAlias", "SetUserRoles", "CreateToken", "ListTokens", "RevokeToken",
      "ListUsers"] then some .admin
  else if method ∈ ["PlanReshard", "ApplyReshard", "MoveBucket", "RegisterServedIndex", "RegisterNode",
      "ResolveUnitOwner", "SubscribeAssignments"] then some .ops
  else none

structure RbacPolicy where
  roleScopes : List (String × List Scope)

def RbacPolicy.withDefaultRoles : RbacPolicy := ⟨[
  ("reader", [.search, .indexRead]),
  ("operator", [.search, .indexRead, .ops]),
  ("admin", [.search, .indexRead, .indexWrite, .admin, .ops]),
  ("viewer", [.search, .indexRead]),
  ("index-admin", [.search, .indexRead, .indexWrite, .admin]),
  ("service", [.search, .indexRead, .indexWrite, .admin, .ops])]⟩

def RbacPolicy.grants (policy : RbacPolicy) (roles : List String) (scope : Scope) : Bool :=
  roles.any (fun r => (policy.roleScopes.lookup r).any (·.contains scope))

structure AuthContext where
  method : String
  principal : Option String
  tenant : Option String
  roles : List String
  index : Option String
  allowedIndexes : List String

def RbacPolicy.authorize (policy : RbacPolicy) (ctx : AuthContext) : Except String Unit :=
  match scopeForMethod ctx.method with
  | none => .error ("operation `" ++ ctx.method ++ "` is not permitted by policy")
  | some scope =>
    match ctx.index.filter (fun target => ctx.allowedIndexes ≠ [] ∧ target ∉ ctx.allowedIndexes) with
    | some target => .error ("index `" ++ target ++ "` is not in the caller's allowed indexes (" ++
        ", ".intercalate ctx.allowedIndexes ++ ")")
    | none =>
      if policy.grants ctx.roles scope then .ok ()
      else
        let held := if ctx.roles = [] then "none" else ", ".intercalate ctx.roles
        .error ("`" ++ ctx.method ++ "` requires the `" ++ scope.asStr ++ "` scope; caller roles (" ++ held ++
          ") do not grant it")

/-- The metadata as the authorization seam sees it: a value that is not visible text reads as absent. -/
def Metadata.toStr (readable : String → Bool) (md : Metadata) : Metadata :=
  ⟨md.authorization.filter readable, md.principal.filter readable, md.tenant.filter readable,
    md.roles.filter readable, md.indexes.filter readable⟩

def authorizeIndex (readable : String → Bool) (policy : RbacPolicy) (method : String) (index : Option String)
    (md : Metadata) : Except RpcStatus Unit :=
  let get := md.toStr readable
  (policy.authorize ⟨method, get.principal, get.tenant, splitCsv get.roles, index, splitCsv get.indexes⟩).mapError
    (⟨.permissionDenied, ·⟩)

/-- A name that a list in a header keeps as it is. -/
def Plain (name : String) : Prop := name ≠ "" ∧ ',' ∉ name.toList ∧ Text.trim name = name

/-- A list that comes out of its header as it went in. -/
def Carried (readable : String → Bool) (items : List String) : Prop :=
  (∀ n ∈ items, Plain n) ∧ (items ≠ [] → readable (",".intercalate items) = true)

lemma splitCsv_intercalate (hne : names ≠ []) (h : ∀ n ∈ names, Plain n) :
    splitCsv (some (",".intercalate names)) = names := by
  have hsplit : (",".intercalate names).toList.splitOn ',' = names.map String.toList := by
    rw [String.toList_intercalate]
    refine splitOn_intercalate ',' ?_ (by simpa using hne)
    intro l hl
    obtain ⟨n, hn, rfl⟩ := mem_map.mp hl
    exact (h n hn).2.1
  have htrim : (names.map String.toList).map (fun r => trim (String.ofList r)) = names := by
    rw [map_map]
    refine (map_congr_left fun n hn => ?_).trans (map_id names)
    simpa using (h n hn).2.2
  rw [splitCsv, hsplit, htrim, filter_eq_self]
  intro n hn
  simpa using (h n hn).1

lemma authorizeIndex_target
    (h : authorizeIndex readable policy method (some target) md = .ok ())
    (hsome : splitCsv (md.toStr readable).indexes ≠ []) : target ∈ splitCsv (md.toStr readable).indexes := by
  by_contra hout
  unfold authorizeIndex RbacPolicy.authorize at h
  dsimp only at h
  split at h
  · cases h
  · rw [Option.filter_some_pos (by simp [hsome, hout])] at h
    cases h

lemma stampList_ok
    (h : stampList header items message = .ok value) (hne : items ≠ []) : value = some (",".intercalate items) := by
  unfold stampList stampText at h
  rw [if_neg hne] at h
  split_ifs at h
  exact (Except.ok.inj h).symm

lemma authenticate_ok (h : authenticate header authn md = .ok (verified, md')) :
    (∃ message, stampList header verified.roles message = .ok md'.roles) ∧
      ∃ message, stampList header verified.indexes message = .ok md'.indexes := by
  unfold authenticate at h
  obtain ⟨v, -, h⟩ := bind_ok h
  obtain ⟨principal, -, h⟩ := bind_ok h
  obtain ⟨tenant, -, h⟩ := bind_ok h
  obtain ⟨roles, hroles, h⟩ := bind_ok h
  obtain ⟨indexes, hindexes, h⟩ := bind_ok h
  cases h
  exact ⟨⟨_, hroles⟩, _, hindexes⟩

lemma authenticate_indexes
    (h : authenticate header authn md = .ok (verified, md')) (hne : verified.indexes ≠ [])
    (hcarried : Carried readable verified.indexes) : splitCsv (md'.toStr readable).indexes = verified.indexes := by
  obtain ⟨-, message, hindexes⟩ := authenticate_ok h
  rw [Metadata.toStr, stampList_ok hindexes hne, Option.filter_some_pos (hcarried.2 hne),
    splitCsv_intercalate hne hcarried.1]

lemma trim_trim (s : String) : trim (trim s) = trim s := by
  let cs := s.toList.dropWhile isWhitespace
  have hhead : (cs.rdropWhile isWhitespace).dropWhile isWhitespace = cs.rdropWhile isWhitespace := by
    cases htrim : cs.rdropWhile isWhitespace with
    | nil => rfl
    | cons c rest =>
      obtain ⟨tail, htail⟩ : c :: rest <+: cs := htrim ▸ rdropWhile_prefix ..
      have hc := head?_dropWhile_not isWhitespace s.toList
      rw [show s.toList.dropWhile _ = cs from rfl, ← htail] at hc
      exact dropWhile_cons_of_neg (by simpa using hc)
  have htwice : (cs.rdropWhile isWhitespace).rdropWhile isWhitespace = cs.rdropWhile isWhitespace :=
    rdropWhile_idempotent ..
  change String.ofList (rdropWhile _ (dropWhile _ (String.ofList (cs.rdropWhile _)).toList)) = String.ofList (cs.rdropWhile _)
  rw [String.toList_ofList, hhead, htwice]

lemma notMem_of_mem_splitOn {sep : Char} {cs : List Char} (h : part ∈ cs.splitOn sep) : sep ∉ part := by
  induction cs generalizing part with
  | nil => simp_all
  | cons c cs ih =>
    rw [splitOn_cons_eq_if_modifyHead] at h
    cases hparts : cs.splitOn sep <;> grind [modifyHead]

lemma plain_of_mem_splitCsv (h : n ∈ splitCsv value) : Plain n := by
  cases value with
  | none => cases h
  | some s =>
    obtain ⟨hmem, hne⟩ := mem_filter.mp h
    obtain ⟨part, hpart, rfl⟩ := mem_map.mp hmem
    refine ⟨by simpa using hne, fun hcomma => notMem_of_mem_splitOn hpart ?_, trim_trim _⟩
    have hsub : trimChars part ⊆ part := by
      unfold trimChars
      exact fun c hc => (dropWhile_sublist _).mem (mem_reverse.mp ((dropWhile_sublist _).mem (mem_reverse.mp hc)))
    exact hsub (by simpa [trim] using hcomma)

lemma stampList_carried (h : stampList header items message = .ok value) :
    (∀ n, n ∈ splitCsv (value.filter readable) ↔ n ∈ items) ↔ Carried readable items := by
  constructor
  · intro hsame
    refine ⟨fun n hn => plain_of_mem_splitCsv ((hsame n).mpr hn), fun hne => ?_⟩
    obtain ⟨n, hn⟩ := exists_mem_of_ne_nil _ hne
    have hread := (hsame n).mpr hn
    rw [stampList_ok h hne, Option.filter_some] at hread
    by_contra hno
    rw [if_neg hno] at hread
    cases hread
  · rintro ⟨hplain, hread⟩ n
    by_cases hne : items = []
    · rw [hne, stampList, if_pos rfl] at h
      cases h
      simp [hne, splitCsv]
    · rw [stampList_ok h hne, Option.filter_some_pos (hread hne), splitCsv_intercalate hne hplain]

/-- An identity that passed authentication reaches the authorization seam with the roles and the index
allowlist it was verified with exactly when every name is plain and both headers are readable text. -/
theorem authenticate_carries_iff (readable : String → Bool) (h : authenticate header authn md = .ok (verified, md')) :
    ((∀ n, n ∈ splitCsv (md'.toStr readable).roles ↔ n ∈ verified.roles) ∧
        ∀ n, n ∈ splitCsv (md'.toStr readable).indexes ↔ n ∈ verified.indexes) ↔
      Carried readable verified.roles ∧ Carried readable verified.indexes := by
  obtain ⟨⟨rolesMessage, hroles⟩, indexesMessage, hindexes⟩ := authenticate_ok h
  exact and_congr (stampList_carried hroles) (stampList_carried hindexes)

theorem authenticate_carries_reader :
    (∀ n, n ∈ splitCsv (some "reader,writer") ↔ n ∈ ["reader", "writer"]) ∧
      ∀ n, n ∈ splitCsv (some "logs,docs,users") ↔ n ∈ ["logs", "docs", "users"] := by
  -- a caller cannot bring headers of its own
  have hok : authenticate (fun _ => true) (fun _ => .ok ⟨"ada", none, ["reader", "writer"], ["logs", "docs", "users"]⟩)
      ⟨none, none, none, some "admin", some "secrets"⟩ = .ok (⟨"ada", none, ["reader", "writer"], ["logs", "docs", "users"]⟩,
        ⟨none, some "ada", none, some "reader,writer", some "logs,docs,users"⟩) := rfl
  refine (authenticate_carries_iff (fun _ => true) hok).mpr ?_
  simp only [Carried, Plain]
  decide +kernel

/-- A role with a comma turns into two, and an allowlist with only an empty name into no restriction. -/
theorem authenticate_widens :
    ∃ md', authenticate (fun _ => true) (fun _ => .ok ⟨"ada", none, ["reader,admin"], [""]⟩)
        ⟨none, none, none, none, none⟩ = .ok (⟨"ada", none, ["reader,admin"], [""]⟩, md') ∧
      splitCsv (md'.toStr fun _ => true).roles = ["reader", "admin"] ∧ splitCsv (md'.toStr fun _ => true).indexes = [] :=
  ⟨⟨none, some "ada", none, some "reader,admin", some ""⟩, rfl, by decide +kernel, by decide +kernel⟩

end GrowlerDB.Engine
