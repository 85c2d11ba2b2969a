import GrowlerDB.Engine.Authorization
import GrowlerDB.Lib.Runs

namespace GrowlerDB.Engine
open Lib List Option

variable {R : Type}

/-- What the http library takes for a header value, and which of those it reads back as text. -/
structure HeaderText where
  parse : String → Bool
  toStr : String → Bool

structure Gateway (R : Type) where
  single : Option R
  routes : List (String × R)
  missing : List (String × Nat)
  defaultIndex : Option String
  servedIndex : Option String
  authn : Option (Option String → Except String Verified)
  authz : Option RbacPolicy

def negativeCacheTtl : Nat := 5000

inductive Lookup (R : Type)
  | done (result : Except RpcStatus R)
  | ask (target : String)

namespace Gateway

section

variable (g : Gateway R)

def serving (name : String) : Gateway R :=
  { g with defaultIndex := some name, servedIndex := some name }

def notServed (target : String) : RpcStatus := ⟨.notFound, "index `" ++ target ++ "` is not served by this endpoint"⟩

def lookupTarget (now : Nat) (target : String) : Lookup R :=
  match g.routes.lookup target with
  | some route => .done (.ok route)
  | none =>
    match g.missing.lookup target with
    | some since => if now - since < negativeCacheTtl then .done (.error (notServed target)) else .ask target
    | none => .ask target

def lookupRoute (now : Nat) (index : String) : Lookup R :=
  let want := Text.trim index
  match g.single with
  | some single =>
    match g.servedIndex with
    | some served =>
      if want ≠ "" ∧ want ≠ served then
        .done (.error ⟨.notFound, "index `" ++ want ++ "` is not served by this endpoint (serving `" ++ served ++ "`)"⟩)
      else .done (.ok single)
    | none => .done (.ok single)
  | none =>
    if want ≠ "" then g.lookupTarget now want
    else match g.defaultIndex with
      | some target => g.lookupTarget now target
      | none =>
        match g.routes with
        | [(_, route)] => .done (.ok route)
        | routes => .done (.error ⟨.invalidArgument,
            "index required; endpoint serves " ++ toString routes.length ++ " indexes"⟩)

def settle (now : Nat) (target : String) (answer : Except String (Option R)) :
    Except RpcStatus R × Gateway R :=
  match answer with
  | .ok (some route) =>
    let missing := g.missing.filter (·.1 ≠ target)
    match g.routes.lookup target with
    | some first => (.ok first, { g with missing })
    | none => (.ok route, { g with routes := (target, route) :: g.routes, missing })
  | .ok none => (.error (notServed target), { g with missing := (target, now) :: g.missing })
  | .error e => (.error ⟨.unavailable, "resolving index `" ++ target ++ "`: " ++ e⟩, g)

def authTarget (index : String) : Option String :=
  if Text.trim index = "" then g.defaultIndex else some (Text.trim index)

end

def identify (header : HeaderText) (g : Gateway R) (md : Metadata) : Except RpcStatus (Option Verified × Metadata) :=
  match g.authn with
  | some authn => (authenticate header.parse authn md).map (fun p => (some p.1, p.2))
  | none => .ok (none, stripIdentity md)

def guard (header : HeaderText) (g : Gateway R) (method index : String) (md : Metadata) :
    Except RpcStatus (Option Verified) := do
  let (caller, md) ← g.identify header md
  match g.authz with
  | some policy => (authorizeIndex header.toStr policy method (g.authTarget index) md).map (fun _ => caller)
  | none => .ok caller

def guardAndResolve (header : HeaderText) (resolve : String → Except String (Option R)) (g : Gateway R) (now : Nat)
    (method index : String) (md : Metadata) : Except RpcStatus R × Gateway R :=
  match g.guard header method index md with
  | .error e => (.error e, g)
  | .ok _ =>
    match g.lookupRoute now index with
    | .done result => (result, g)
    | .ask target => g.settle now target (resolve target)

end Gateway

structure Calls (R : Type) where
  gateway : Gateway R
  waiting : List (Option Verified × String)
  answered : List (Option Verified × R)

inductive CallEvent (R : Type)
  | call (now : Nat) (method index : String) (md : Metadata)
  | resolved (k now : Nat) (answer : Except String (Option R))

def Calls.step (header : HeaderText) (s : Calls R) : CallEvent R → Calls R
  | .call now method index md =>
    match s.gateway.guard header method index md with
    | .error _ => s
    | .ok caller =>
      match s.gateway.lookupRoute now index with
      | .done (.ok route) => { s with answered := (caller, route) :: s.answered }
      | .done (.error _) => s
      | .ask target => { s with waiting := s.waiting ++ [(caller, target)] }
  | .resolved k now answer =>
    match s.waiting[k]? with
    | none => s
    | some (caller, target) =>
      let (result, gateway) := s.gateway.settle now target answer
      let waiting := s.waiting.eraseIdx k
      match result with
      | .ok route => { gateway, waiting, answered := (caller, route) :: s.answered }
      | .error _ => { s with gateway, waiting }

variable {s : Calls R}

section

variable (serves : R → String)

/-- A single route is declared under the name of its index, or under none. -/
def Gateway.Configured (g : Gateway R) : Prop :=
  ∀ single, g.single = some single → g.defaultIndex = g.servedIndex ∧ ∀ name, g.servedIndex = some name → serves single = name

/-- The routes are those of the indexes they are kept under. -/
def Gateway.RoutesServe (g : Gateway R) : Prop := ∀ name route, g.routes.lookup name = some route → serves route = name

/-- A request whose target index is known before it is authorized, by a caller whose indexes come out of their
header. -/
structure Gateway.Targeted (readable : String → Bool) (g : Gateway R) (caller : Verified) (index : String) : Prop where
  carried : Carried readable caller.indexes
  declared : g.single.isSome = true → g.servedIndex.isSome = true
  named : g.single = none → Text.trim index ≠ "" ∨ g.defaultIndex.isSome = true

def Calls.Allowed (header : HeaderText) (s : Calls R) : CallEvent R → Prop
  | .call _ _ index md => ∀ authn caller md', s.gateway.authn = some authn →
      authenticate header.parse authn md = .ok (caller, md') → caller.indexes ≠ [] → s.gateway.Targeted header.toStr caller index
  | .resolved k _ answer => ∀ caller target route, s.waiting[k]? = some (caller, target) → answer = .ok (some route) →
      serves route = target

variable {serves} {header : HeaderText} {g : Gateway R} {caller : Verified} {index method : String} {now : Nat}
  {md : Metadata} {route : R} {target : String}

lemma lookupTarget_serves (hroutes : g.RoutesServe serves) (h : g.lookupTarget now target = .done (.ok route)) :
    serves route = target := by
  unfold Gateway.lookupTarget at h
  split at h
  · rename_i r hr
    cases h
    exact hroutes target _ hr
  · split at h
    · split_ifs at h
      cases h
    · cases h

lemma lookupTarget_ask (h : g.lookupTarget now target = .ask target') : target' = target := by
  unfold Gateway.lookupTarget at h
  split at h
  · cases h
  · split at h
    · split_ifs at h
      exact (Lookup.ask.inj h).symm
    · exact (Lookup.ask.inj h).symm

lemma Gateway.Targeted.exists_target (h : g.Targeted header.toStr caller index) (hconf : g.Configured serves) :
    ∃ target, g.authTarget index = some target := by
  unfold Gateway.authTarget
  split_ifs with hblank
  · rw [← isSome_iff_exists]
    cases hsingle : g.single with
    | none => exact (h.named hsingle).resolve_left (not_not.mpr hblank)
    | some single =>
      rw [(hconf single hsingle).1]
      exact h.declared (by rw [hsingle]; rfl)
  · exact ⟨_, rfl⟩

lemma lookupRoute_target (hconf : g.Configured serves) (hroutes : g.RoutesServe serves)
    (h : g.Targeted header.toStr caller index) (ht : g.authTarget index = some target) :
    (∀ route, g.lookupRoute now index = .done (.ok route) → serves route = target) ∧
      ∀ target', g.lookupRoute now index = .ask target' → target' = target := by
  unfold Gateway.authTarget at ht
  unfold Gateway.lookupRoute
  dsimp only
  cases hsingle : g.single with
  | some single =>
    obtain ⟨served, hserved⟩ := isSome_iff_exists.mp (h.declared (by rw [hsingle]; rfl))
    obtain ⟨hdefault, hname⟩ := hconf single hsingle
    have hserves := hname served hserved
    rw [hdefault, hserved] at ht
    rw [hserved]
    dsimp only
    by_cases hother : Text.trim index ≠ "" ∧ Text.trim index ≠ served
    · rw [if_pos hother]
      exact ⟨fun _ hno => (by cases hno), fun _ hno => (by cases hno)⟩
    · rw [if_neg hother]
      have htarget : served = target := by
        split_ifs at ht with hblank
        · exact some.inj ht
        · exact (not_not.mp (not_and.mp hother hblank)).symm.trans (some.inj ht)
      refine ⟨fun route hroute => ?_, fun _ hno => (by cases hno)⟩
      cases hroute
      exact hserves.trans htarget
  | none =>
    dsimp only
    split_ifs at ht with hblank
    · rw [if_neg (not_not.mpr hblank), ht]
      exact ⟨fun _ => lookupTarget_serves hroutes, fun _ => lookupTarget_ask⟩
    · cases ht
      rw [if_pos hblank]
      exact ⟨fun _ => lookupTarget_serves hroutes, fun _ => lookupTarget_ask⟩

lemma guard_target (hpolicy : g.authz = some policy)
    (h : g.guard header method index md = .ok (some caller)) (hne : caller.indexes ≠ [])
    (hcarried : Carried header.toStr caller.indexes) (ht : g.authTarget index = some target) :
    target ∈ caller.indexes := by
  unfold Gateway.guard at h
  obtain ⟨⟨who, md'⟩, hwho, h⟩ := bind_ok h
  rw [hpolicy] at h
  obtain ⟨u, hauth, rfl⟩ := map_ok h
  unfold Gateway.identify at hwho
  split at hwho
  · rename_i authn hauthn
    obtain ⟨⟨v, md''⟩, hv, heq⟩ := map_ok hwho
    cases heq
    have hindexes := authenticate_indexes hv hne hcarried
    rw [ht] at hauth
    rw [← hindexes]
    exact authorizeIndex_target hauth (by rw [hindexes]; exact hne)
  · cases hwho

lemma guard_who (h : g.guard header method index md = .ok who) : ∃ md', g.identify header md = .ok (who, md') := by
  unfold Gateway.guard at h
  obtain ⟨⟨who', md'⟩, hwho, h⟩ := bind_ok h
  dsimp only at h
  cases hauthz : g.authz with
  | some policy =>
    rw [hauthz] at h
    obtain ⟨u, -, rfl⟩ := map_ok h
    exact ⟨md', hwho⟩
  | none =>
    rw [hauthz] at h
    cases h
    exact ⟨md', hwho⟩

lemma guard_identified (h : g.guard header method index md = .ok (some caller)) :
    ∃ authn md', g.authn = some authn ∧ authenticate header.parse authn md = .ok (caller, md') := by
  obtain ⟨md', hwho⟩ := guard_who h
  unfold Gateway.identify at hwho
  split at hwho
  · rename_i authn hauthn
    obtain ⟨⟨v, md''⟩, hv, heq⟩ := map_ok hwho
    cases heq
    exact ⟨authn, _, hauthn, hv⟩
  · cases hwho

lemma settle_serves {answer : Except String (Option R)} (hroutes : g.RoutesServe serves)
    (hanswer : ∀ route, answer = .ok (some route) → serves route = target) :
    (g.settle now target answer).2.RoutesServe serves ∧
      ∀ route, (g.settle now target answer).1 = .ok route → serves route = target := by
  unfold Gateway.settle
  split
  · rename_i route
    dsimp only
    split
    · rename_i first hfirst
      refine ⟨hroutes, fun r hr => ?_⟩
      cases hr
      exact hroutes target _ hfirst
    · refine ⟨fun name r hr => ?_, fun r hr => ?_⟩
      · rw [lookup_cons] at hr
        by_cases hname : name = target
        · subst hname
          rw [beq_self_eq_true] at hr
          cases hr
          exact hanswer _ rfl
        · rw [beq_false_of_ne hname] at hr
          exact hroutes name r hr
      · cases hr
        exact hanswer _ rfl
  · exact ⟨hroutes, fun r hr => (by cases hr)⟩
  · exact ⟨hroutes, fun r hr => (by cases hr)⟩

structure Calls.Restricted (serves : R → String) (g : Gateway R) (s : Calls R) : Prop where
  single : s.gateway.single = g.single
  served : s.gateway.servedIndex = g.servedIndex
  default : s.gateway.defaultIndex = g.defaultIndex
  authz : s.gateway.authz = g.authz
  routes : s.gateway.RoutesServe serves
  waiting : ∀ caller target, (some caller, target) ∈ s.waiting → caller.indexes ≠ [] → target ∈ caller.indexes
  answered : ∀ caller route, (some caller, route) ∈ s.answered → caller.indexes ≠ [] → serves route ∈ caller.indexes

lemma settle_config (g : Gateway R) (now : Nat) (target : String) (answer : Except String (Option R)) :
    (g.settle now target answer).2.single = g.single ∧ (g.settle now target answer).2.servedIndex = g.servedIndex ∧
      (g.settle now target answer).2.defaultIndex = g.defaultIndex ∧ (g.settle now target answer).2.authz = g.authz := by
  unfold Gateway.settle
  split
  · dsimp only
    split <;> exact ⟨rfl, rfl, rfl, rfl⟩
  · exact ⟨rfl, rfl, rfl, rfl⟩
  · exact ⟨rfl, rfl, rfl, rfl⟩

section

variable (hs : s.Restricted serves g) (hconf : g.Configured serves) (hpolicy : g.authz.isSome = true)
include hs hconf hpolicy

/-- A restricted caller that gets past the policy has one of its indexes as target, and so has its route. -/
lemma Calls.Restricted.within (ha : s.Allowed serves header (.call now method index md))
    (hguard : s.gateway.guard header method index md = .ok (some caller)) (hne : caller.indexes ≠ []) :
    (∀ route, s.gateway.lookupRoute now index = .done (.ok route) → serves route ∈ caller.indexes) ∧
      ∀ target, s.gateway.lookupRoute now index = .ask target → target ∈ caller.indexes := by
  obtain ⟨authn, md', hauthn, hauth⟩ := guard_identified hguard
  have htargeted := ha authn caller md' hauthn hauth hne
  have hconf' : s.gateway.Configured serves := by
    intro single hsingle
    rw [hs.single] at hsingle
    rw [hs.default, hs.served]
    exact hconf single hsingle
  obtain ⟨policy, hp⟩ := isSome_iff_exists.mp hpolicy
  obtain ⟨t, ht⟩ := htargeted.exists_target hconf'
  have hin : t ∈ caller.indexes := guard_target (hs.authz.trans hp) hguard hne htargeted.carried ht
  obtain ⟨hdone, hask⟩ := @lookupRoute_target R serves header s.gateway caller index now t hconf' hs.routes htargeted ht
  refine ⟨fun route hroute => ?_, fun target htarget => ?_⟩
  · rwa [hdone route hroute]
  · rwa [hask target htarget]

lemma restricted_call (ha : s.Allowed serves header (.call now method index md)) :
    (s.step header (.call now method index md)).Restricted serves g := by
  simp only [Calls.step]
  split
  · exact hs
  · rename_i caller hguard
    split
    · rename_i route hroute
      refine { hs with answered := fun v r hr hne => ?_ }
      rcases mem_cons.mp hr with heq | hr
      · cases heq
        exact (hs.within hconf hpolicy ha hguard hne).1 _ hroute
      · exact hs.answered v r hr hne
    · exact hs
    · rename_i t ht
      refine { hs with waiting := fun v t' hr hne => ?_ }
      rcases mem_append.mp hr with hr | hr
      · exact hs.waiting v t' hr hne
      · cases mem_singleton.mp hr
        exact (hs.within hconf hpolicy ha hguard hne).2 _ ht

end

lemma restricted_resolved (hs : s.Restricted serves g)
    (ha : s.Allowed serves header (.resolved k now answer)) :
    (s.step header (.resolved k now answer)).Restricted serves g := by
  simp only [Calls.step]
  split
  · exact hs
  · rename_i who t hk
    have hsettle := @settle_serves R serves s.gateway now t answer hs.routes fun r hr => ha who t r hk hr
    obtain ⟨hsingle, hserved, hdefault, hauthz⟩ := settle_config s.gateway now t answer
    have hwaiting : ∀ v t', (some v, t') ∈ s.waiting.eraseIdx k → v.indexes ≠ [] → t' ∈ v.indexes :=
      fun v t' hin => hs.waiting v t' (mem_of_mem_eraseIdx hin)
    split
    · rename_i r hr
      refine ⟨hsingle.trans hs.single, hserved.trans hs.served, hdefault.trans hs.default, hauthz.trans hs.authz,
        hsettle.1, hwaiting, fun v r' hin hne => ?_⟩
      rcases mem_cons.mp hin with heq | hin
      · cases heq
        rw [hsettle.2 _ hr]
        exact hs.waiting v t (mem_of_getElem? hk) hne
      · exact hs.answered v r' hin hne
    · exact ⟨hsingle.trans hs.single, hserved.trans hs.served, hdefault.trans hs.default, hauthz.trans hs.authz,
        hsettle.1, hwaiting, hs.answered⟩

def Calls.start (g : Gateway R) : Calls R := ⟨{ g with routes := [], missing := [] }, [], []⟩

lemma restricted_run (hconf : g.Configured serves) (hpolicy : g.authz.isSome)
    (hrun : Runs (Calls.step header) (Calls.Allowed serves header) (Calls.start g) s) : s.Restricted serves g := by
  have hstart : (Calls.start g).Restricted serves g :=
    ⟨rfl, rfl, rfl, rfl, fun _ _ h => (by cases h), fun _ _ h => absurd h not_mem_nil,
      fun _ _ h => absurd h not_mem_nil⟩
  refine hrun.invariant hstart fun s e ha hs => ?_
  cases e with
  | call now method index md => exact restricted_call hs hconf hpolicy ha
  | resolved k now answer => exact restricted_resolved hs ha

/-- In every run of targeted calls, a restricted caller gets routes of its own indexes only; so it is with a further
call. -/
theorem index_restriction_binds {s : Calls R} (hconf : g.Configured serves) (hpolicy : g.authz.isSome = true)
    (hrun : Runs (Calls.step header) (Calls.Allowed serves header) (Calls.start g) s) :
    (∀ caller route, (some caller, route) ∈ s.answered → caller.indexes ≠ [] → serves route ∈ caller.indexes) ∧
    ∀ resolve now method index md authn caller md' route,
      (∀ target route, resolve target = .ok (some route) → serves route = target) →
      s.gateway.authn = some authn → authenticate header.parse authn md = .ok (caller, md') → caller.indexes ≠ [] →
      s.gateway.Targeted header.toStr caller index →
      (s.gateway.guardAndResolve header resolve now method index md).1 = .ok route → serves route ∈ caller.indexes := by
  have hs := restricted_run hconf hpolicy hrun
  refine ⟨hs.answered, ?_⟩
  intro resolve now method index md authn caller md' route hresolve hauthn hauth hne htargeted hroute
  have hallowed : s.Allowed serves header (.call now method index md) := by
    intro authn' caller' md'' hauthn' hauth' _
    rw [hauthn] at hauthn'
    cases hauthn'
    rw [hauth] at hauth'
    cases hauth'
    exact htargeted
  unfold Gateway.guardAndResolve at hroute
  split at hroute
  · cases hroute
  · rename_i who hguard
    have hwho : who = some caller := by
      obtain ⟨md'', hwho⟩ := guard_who hguard
      rw [Gateway.identify, hauthn] at hwho
      dsimp only at hwho
      rw [hauth] at hwho
      cases hwho
      rfl
    subst hwho
    obtain ⟨hdone, hask⟩ := hs.within hconf hpolicy hallowed hguard hne
    split at hroute
    · rename_i result hlookup
      obtain rfl : result = .ok route := hroute
      exact hdone route hlookup
    · rename_i target hlookup
      rw [(settle_serves hs.routes fun r hr => hresolve target r hr).2 route hroute]
      exact hask target hlookup

end

namespace SampleCalls

def alice : Verified := ⟨"alice", none, ["reader"], []⟩

def bob : Verified := ⟨"bob", none, ["reader"], ["a"]⟩

def carol : Verified := ⟨"carol", none, ["reader"], ["a,b"]⟩

def dave : Verified := ⟨"dave", none, ["reader"], ["é"]⟩

def keys : Option String → Except String Verified
  | some "alice" => .ok alice
  | some "bob" => .ok bob
  | some "carol" => .ok carol
  | some "dave" => .ok dave
  | _ => .error "unknown or revoked API key"

def as (name : String) : Metadata := ⟨some name, none, none, none, none⟩

def many : Gateway String := ⟨none, [], [], none, none, some keys, some .withDefaultRoles⟩

def undeclared : Gateway String := { many with single := some "b" }

def visible (s : String) : Bool := s.toList.all fun c => c = '\t' ∨ 32 ≤ c.toNat ∧ c.toNat < 127

def headers : HeaderText := ⟨fun s => s.toList.all fun c => c = '\t' ∨ 32 ≤ c.toNat ∧ c.toNat ≠ 127, visible⟩

def found : String → Except String (Option String) := fun name => .ok (some name)

def others : List (CallEvent String) := [.call 0 "Search" "b" (as "alice"), .resolved 0 1 (.ok (some "b"))]

def padded : List (CallEvent String) :=
  others ++ [.call 2 "Search" " a " (as "bob"), .resolved 0 3 (.ok (some "a"))]

def unnamed : List (CallEvent String) := others ++ [.call 2 "Search" "" (as "bob")]

lemma configured_many : many.Configured id := by
  intro single h
  cases h

end SampleCalls

open SampleCalls

theorem index_restriction_padded :
    (padded.foldl (Calls.step headers) (.start many)).answered = [(some bob, "a"), (some alice, "b")] ∧
    "a" ∈ bob.indexes := by
  have hallowed : AllAllowed (Calls.step headers) (Calls.Allowed id headers) (.start many) padded := by
    refine ⟨?_, ?_, ?_, ?_, trivial⟩
    · rintro authn caller md' ⟨⟩ hauth hne
      cases hauth
      exact absurd rfl hne
    · intro caller target route hk hanswer
      cases hk
      cases hanswer
      rfl
    · rintro authn caller md' ⟨⟩ hauth hne
      cases hauth
      refine ⟨⟨fun name hname => ?_, fun _ => by decide⟩, fun hno => (by cases hno), fun _ => .inl (by decide)⟩
      rw [mem_singleton.mp hname]
      exact ⟨by decide, by decide, by decide⟩
    · intro caller target route hk hanswer
      cases hk
      cases hanswer
      rfl
  have hanswered : (padded.foldl (Calls.step headers) (.start many)).answered =
      [(some bob, "a"), (some alice, "b")] := by rfl
  refine ⟨hanswered, ?_⟩
  refine (index_restriction_binds configured_many rfl (Runs.start.foldl _ hallowed)).1 bob "a" ?_ (by decide)
  rw [hanswered]
  exact mem_cons_self

/-- Without a name, the sole route is handed out; so is that of an undeclared index, and an entry with a comma opens
two. An allowlist that is no visible text is none. -/
theorem index_restriction_missed :
    (unnamed.foldl (Calls.step headers) (.start many)).answered = [(some bob, "b"), (some alice, "b")] ∧
    (undeclared.guardAndResolve headers found 0 "Search" "" (as "bob")).1 = .ok "b" ∧
    (undeclared.guardAndResolve headers found 0 "Search" "a" (as "bob")).1 = .ok "b" ∧
    (many.guardAndResolve headers found 0 "Search" "b" (as "carol")).1 = .ok "b" ∧
    (many.guardAndResolve headers found 0 "Search" "b" (as "dave")).1 = .ok "b" ∧
    "b" ∉ bob.indexes ∧ "b" ∉ carol.indexes ∧ "b" ∉ dave.indexes := by
  refine ⟨by rfl, by rfl, by rfl, by rfl, by rfl, by decide, by decide, by decide⟩

end GrowlerDB.Engine
