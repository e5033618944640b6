import CommandTree.Proofs.Assembly.Outcome

/-!
# Commands and bindings agree

A command is placed by the names on its way, a binding is resolved by exact identities inside a
scope. Both come to the same node. A declaration that is placed without an error can be bound, from
any element of its scope and after any further declarations, by the path that names it
(`Directive.boundPath`): the text of its namespace, where the last segment of an argument stands
between brackets. This path has the identities of the declaration (`Directive.Reads.boundPath`),
and these lead to the same node as long as the environment only grows.

An element is bound only to a node of its scope, and a scope has, with a node, all nodes on the way
down to it (`WellFormed.inScope_of_onWay`).
-/

namespace CommandTree

open Namespace (Token segmentText tokenize)
open Relation (ReflTransGen)

/-! ## The path of a declaration -/

namespace Namespace

/-- The segment between brackets, where it may stand already. -/
def bracketed (segment : String) : String :=
  if segment.toList.head? = some '<' then segment
  else String.ofList ('<' :: (segment.toList ++ ['>']))

/-- The segments with the last one between brackets. -/
def bracketLast : List String → List String
  | [] => []
  | [last] => [bracketed last]
  | segment :: rest => segment :: bracketLast rest

theorem bracketLast_cons_cons (first second : String) (rest : List String) :
    bracketLast (first :: second :: rest) = first :: bracketLast (second :: rest) :=
  rfl

theorem bracketLast_ne_nil {segments : List String} (h : segments ≠ []) :
    bracketLast segments ≠ [] := by
  match segments with
  | [_] => simp [bracketLast]
  | _ :: _ :: _ => simp [bracketLast]

theorem toList_bracketed_ne_nil {segment : String} (h : segment.toList ≠ []) :
    (bracketed segment).toList ≠ [] := by
  unfold bracketed
  split
  · exact h
  · simp

/-- Brackets are all that is added to a segment. -/
theorem mem_toList_bracketed {segment : String} {c : Char} (h : c ∈ (bracketed segment).toList) :
    c ∈ segment.toList ∨ c = '<' ∨ c = '>' := by
  unfold bracketed at h
  split at h
  · exact Or.inl h
  · simp only [String.toList_ofList, List.mem_cons, List.mem_append, List.not_mem_nil,
      or_false] at h
    tauto

/-- Brackets bring no white space. -/
theorem isSpace_of_mem_bracketLast : ∀ {segments : List String},
    (∀ segment ∈ segments, ∀ c ∈ segment.toList, Text.isSpace c = false) →
    ∀ segment ∈ bracketLast segments, ∀ c ∈ segment.toList, Text.isSpace c = false
  | [], _, _, hmem => by simp [bracketLast] at hmem
  | [last], h, _, hmem => by
    intro c hc
    rw [List.mem_singleton.mp hmem] at hc
    rcases mem_toList_bracketed hc with hc | rfl | rfl
    · exact h last List.mem_cons_self c hc
    · decide
    · decide
  | first :: second :: rest, h, segment, hmem => by
    rw [List.forall_mem_cons] at h
    rw [bracketLast_cons_cons] at hmem
    rcases List.mem_cons.mp hmem with rfl | hmem
    · exact h.1
    · exact isSpace_of_mem_bracketLast h.2 segment hmem

/-- Between brackets a segment is read as an argument of its name. -/
theorem read_bracketed {segment : String} {identity : Identity} (hne : segment.toList ≠ [])
    (h : Word.read segment.toList = .ok identity) :
    Word.read (bracketed segment).toList = .ok (.argument identity.name) := by
  rcases Word.read_eq_ok_iff.mp h with ⟨rfl, hplain⟩ | ⟨name, hword, -, -, rfl⟩
  · have hopen : segment.toList.head? ≠ some '<' := fun hhead =>
      (hplain _ (List.mem_of_mem_head? hhead)).1 rfl
    rw [bracketed, if_neg hopen, String.toList_ofList, Word.read_eq_ok_iff]
    exact Or.inr ⟨segment.toList, rfl, hne, hplain, rfl⟩
  · rw [bracketed, if_pos (by rw [hword]; rfl)]
    exact h

/-- Segments with the last one between brackets are read as the same tokens, of which the last one
is made an argument. -/
theorem read_bracketLast : ∀ {segments : List String} {tokens : List Token},
    [] ∉ segments.map String.toList →
    (segments.map String.toList).map Word.read = (tokens.map (·.identity)).map .ok →
    [] ∉ (bracketLast segments).map String.toList ∧
      ((bracketLast segments).map String.toList).map Word.read =
        ((Route.nameArgument tokens).map (·.identity)).map .ok
  | [], tokens, _, h => by
    obtain rfl : tokens = [] := by simpa using h.symm
    simp [bracketLast, Route.nameArgument]
  | [last], tokens, hne, h => by
    have hlast : last.toList ≠ [] := fun hnil => hne (by simp [hnil])
    cases tokens with
    | nil => simp at h
    | cons token tokens =>
      obtain ⟨hread, hnil⟩ := List.cons.inj h
      obtain rfl : tokens = [] := by simpa using hnil.symm
      have hbracketed := read_bracketed hlast hread
      refine ⟨?_, by simpa [bracketLast, Route.nameArgument] using hbracketed⟩
      rw [bracketLast, List.map_singleton, List.mem_singleton]
      exact (toList_bracketed_ne_nil hlast).symm
  | first :: second :: rest, tokens, hne, h => by
    rw [List.map_cons, List.mem_cons, not_or] at hne
    cases tokens with
    | nil => simp at h
    | cons token tokens =>
      obtain ⟨hfirst, hrest⟩ := List.cons.inj h
      cases tokens with
      | nil => simp at hrest
      | cons next tokens =>
        obtain ⟨hne', hreads⟩ := @read_bracketLast (second :: rest) (next :: tokens) hne.2 hrest
        rw [bracketLast_cons_cons, Route.nameArgument_cons_cons]
        exact ⟨by simpa [hne.1] using hne', by simpa [hfirst] using hreads⟩

end Namespace

/-- The path by which the commands of a directive are bound. -/
def Directive.boundPath : Directive → String
  | .command path | .bind path => path
  | .literal segments _ => segmentText segments
  | .argument segments _ _ => segmentText (Namespace.bracketLast segments)

/-- The path of a directive has its identities. -/
theorem Directive.Reads.boundPath {directive : Directive} {route : Route}
    (h : directive.Reads route) : ∃ tokens, tokenize directive.boundPath = .ok tokens ∧
      tokens.map (·.identity) = route.tokens.map (·.identity) := by
  cases h with
  | command h => exact ⟨_, h, rfl⟩
  | bind h => exact ⟨_, h, rfl⟩
  | literal hjoin h _ _ =>
    obtain ⟨rfl, -⟩ := Namespace.joinSegments_eq_ok.mp hjoin
    exact ⟨_, h, (Namespace.map_identity_aliasLast _ _).symm⟩
  | @argument segments _ _ _ tokens hjoin h =>
    obtain ⟨rfl, hspace⟩ := Namespace.joinSegments_eq_ok.mp hjoin
    obtain ⟨hempty, hreads⟩ := Namespace.tokenize_iff.mp ⟨tokens, h, rfl⟩
    have hne : segments ≠ [] := by
      rintro rfl
      exact hempty (by decide +kernel)
    rw [Namespace.words_segmentText hne hspace] at hempty hreads
    refine Namespace.tokenize_iff.mpr ?_
    rw [Directive.boundPath, Namespace.words_segmentText (Namespace.bracketLast_ne_nil hne)
      (Namespace.isSpace_of_mem_bracketLast hspace)]
    exact Namespace.read_bracketLast hempty hreads

namespace Environment

/-! ## Binding what was placed -/

/-- Elements of one type have one scope. -/
theorem inScope_congr {env : Environment} {site site' : Element} (h : site'.scope = site.scope)
    {node : Nat} : env.InScope site' node ↔ env.InScope site node := by
  unfold InScope
  rw [h]

/-- A declaration that is placed without an error ends where its identities lead. -/
theorem endOf_of_quiet {env : Environment} (henv : env.WellFormed) {d : Declaration}
    (h : (env.place d).diagnostics = env.diagnostics) :
    ∃ route n, d.directive.Reads route ∧ env.endOf d = some n ∧
      (env.place d).Leads d.element 0 (route.tokens.map (·.identity)) n := by
  rcases place_cases henv d with ⟨memo, added, ⟨hne, -⟩, hplace⟩ | ⟨route, hreads, hplace⟩
  · rw [hplace] at h
    exact absurd (by simpa using h) hne
  · obtain ⟨n, hend, harrived, -⟩ := hplace.of_eq h
    exact ⟨route, n, hreads, hend, harrived.leads⟩

/-- Identities lead elements of one scope to the same node. -/
theorem Leads.of_scope_eq {env : Environment} {site site' : Element}
    (hscope : site'.scope = site.scope) {parent last : Nat} {identities : List Identity}
    (h : env.Leads site parent identities last) : env.Leads site' parent identities last := by
  induction h with
  | nil node => exact .nil node
  | cons hfind hkind hin _ ih => exact .cons hfind hkind ((inScope_congr hscope).mpr hin) ih

/-- An element that has a role is bound to the node that its path leads to. -/
theorem binds_of_leads {names : TypeNames} {env : Environment} (henv : env.Orderly)
    {site : Element} {role : Role} (hrole : site.role names = .ok role) {path : String}
    {tokens : List Token} (hread : tokenize path = .ok tokens) {node : Nat}
    (hleads : env.Leads site 0 (tokens.map (·.identity)) node) :
    env.Binds (bindElement names env ⟨site, .bind path⟩) site role node := by
  have hsteps := steps_readRoute env site (.bind path)
  have hroute : (readRoute site (.bind path) env.memo).1 = .ok { text := path, tokens } := by
    change Route.ofLexed site path (env.memo.lex path).1 = _
    rw [henv.memo.fst_lex, hread]
    rfl
  have hlt := hleads.lt henv.toWellFormed henv.tree.root_lt
  have hnone := hleads.aliasOf henv.toWellFormed henv.tree.root_aliasOf
  unfold bindElement
  dsimp only
  rw [hrole]
  cases hr : readRoute site (.bind path) env.memo with
  | mk result memo =>
    rw [hr] at hroute hsteps
    obtain rfl : result = .ok { text := path, tokens } := hroute
    have hresolve := (resolve_eq_ok_iff (hsteps.orderly henv)).mpr
      (hleads.extends ⟨.refl _, id⟩ henv.toWellFormed (hsteps.wellFormed henv.toWellFormed)
        henv.tree.root_lt)
    dsimp only
    rw [hresolve]
    exact binds_bind hlt hnone memo role site

/-- The environments that further calls lead to. -/
abbrev Onward : Environment → Environment → Prop :=
  ReflTransGen fun env env' => ∃ names ds, env' = declare names env ds

/-- Later environments are assembled too. -/
theorem Onward.assembled {env env' : Environment} (h : env.Onward env') (henv : Assembled env) :
    Assembled env' := by
  induction h with
  | refl => exact henv
  | tail _ hcall ih =>
    obtain ⟨names, ds, rfl⟩ := hcall
    exact ih.declare names ds

theorem Onward.extends {env env' : Environment} (h : env.Onward env') (henv : Assembled env) :
    env.Extends env' := by
  induction h with
  | refl => exact .refl env
  | tail hcalls hcall ih =>
    obtain ⟨names, ds, rfl⟩ := hcall
    have hwf := (Onward.assembled hcalls henv).sound.toWellFormed
    exact ih.trans ((declare_steps names hwf ds).extends hwf)

end Environment

/-! ## The way down to a node -/

/-- The node `m` is on the way from the root down to the node `n`. -/
inductive Tree.OnWay (t : Tree) (n : Nat) : Nat → Prop
  | self : OnWay t n n
  | parent {m p : Nat} (h : OnWay t n m) (hp : (t.node m).parent = some p) : OnWay t n p

namespace Environment

/-- A scope has all nodes on the way down to its nodes. The root is in no scope. -/
theorem WellFormed.inScope_of_onWay {env : Environment} (henv : env.WellFormed) {site : Element}
    {n m : Nat} (hn : env.InScope site n) (h : env.tree.OnWay n m) (hm : m ≠ 0) :
    env.InScope site m := by
  induction h with
  | self => exact hn
  | @parent m p _ hp ih =>
    have hpos := (henv.tree.parent_lt hp).1
    obtain ⟨s, hs, hname, hmem⟩ := ih (by omega)
    obtain ⟨q, hq, hor⟩ := (henv.rooted hs).parent hmem
    obtain rfl := Option.some.inj (hp.symm.trans hq)
    exact ⟨s, hs, hname, hor.resolve_left hm⟩

/-- Identities that lead anywhere lead into the scope. -/
theorem Leads.inScope {env : Environment} {site : Element} {parent last : Nat}
    {identities : List Identity} (h : env.Leads site parent identities last)
    (hne : identities ≠ []) : env.InScope site last := by
  induction h with
  | nil node => exact absurd rfl hne
  | @cons _ _ _ _ rest _ _ hscope hrest ih =>
    cases rest with
    | nil =>
      cases hrest
      exact hscope
    | cons next rest => exact ih (by simp)

/-- A binding is added only on a node of the scope. -/
theorem inScope_of_bound {names : TypeNames} {env : Environment} (henv : env.Orderly)
    {d : Declaration} {b : Binding}
    (h : (bindElement names env d).bindings = env.bindings ++ [b]) :
    env.InScope d.element b.node := by
  rcases bindElement_cases names henv d with
    ⟨memo, added, -, -, heq⟩ | ⟨route, role, node, hreads, -, hleads, hbinds⟩
  · rw [heq] at h
    simp at h
  · rw [hbinds.bindings] at h
    obtain rfl : ⟨node, role, d.element⟩ = b := by simpa using h
    exact hleads.inScope (by simpa using hreads.valid.tokens_ne)

/-- A declaration that is placed without an error can be bound from its scope at any later time, by
its path and to the node where it ends. An element is bound only to a node for which its scope has
all nodes from the root down. -/
theorem Assembled.binding_agrees {env : Environment} (henv : Assembled env) :
    (∀ {names : TypeNames} {d : Declaration}, d.directive.isStructural = true →
      (env.declare names [d]).diagnostics = env.diagnostics →
      ∃ n, env.endOf d = some n ∧
        ∀ {env' : Environment}, (env.declare names [d]).Onward env' →
        ∀ {names' : TypeNames} {site : Element} {role : Role}, site.scope = d.element.scope →
          site.role names' = .ok role →
          env'.Binds (env'.declare names' [⟨site, .bind d.directive.boundPath⟩]) site role n) ∧
    ∀ {names : TypeNames} {site : Element} {path : String} {b : Binding},
      (env.declare names [⟨site, .bind path⟩]).bindings = env.bindings ++ [b] →
      ∀ {m : Nat}, env.tree.OnWay b.node m → m ≠ 0 → env.InScope site m := by
  have horderly := henv.reached.orderly
  constructor
  · intro names d hstructural hquiet
    have hplaced := henv.declare names [d]
    rw [declare_of_structural names env hstructural] at hquiet hplaced ⊢
    obtain ⟨route, n, hreads, hend, hleads⟩ := endOf_of_quiet horderly.toWellFormed hquiet
    refine ⟨n, hend, fun {env'} honward {names' site role} hscope hrole => ?_⟩
    have horderly' := (honward.assembled hplaced).reached.orderly
    obtain ⟨tokens, hread, hidentities⟩ := hreads.boundPath
    rw [declare_of_not_structural names' env' rfl]
    refine binds_of_leads horderly' hrole hread ?_
    rw [hidentities]
    exact (hleads.extends (honward.extends hplaced) hplaced.sound.toWellFormed
      horderly'.toWellFormed hplaced.sound.tree.root_lt).of_scope_eq hscope
  · intro names site path b hbound m hway hm
    rw [declare_of_not_structural names env rfl] at hbound
    exact horderly.inScope_of_onWay (inScope_of_bound horderly hbound) hway hm

/-- An argument that is declared through an alias can be bound after another type has declared a
command beside it. -/
theorem teleport_binding_agrees :
    let run : Element := { owner := some "Teleport", name := "run", kind := .method }
    let home : Element := { owner := some "Home", name := "run", kind := .method }
    let d : Declaration := ⟨run, .argument ["tp", "player"] "Player" none⟩
    let env := empty.declare {} [⟨run, .literal ["teleport"] ["tp"]⟩]
    let env' := (env.declare {} [d]).declare {} [⟨home, .command "tp home"⟩]
    d.directive.boundPath = "tp <player>" ∧ env.endOf d = some 3 ∧
      env'.Binds (env'.declare {} [⟨run, .bind d.directive.boundPath⟩]) run .execution 3 ∧
      env'.tree.OnWay 3 1 ∧ env'.InScope run 1 := by
  intro run home d env env'
  have henv : Assembled env := .declare .empty {} _
  have henv' : Assembled env' := (henv.declare {} [d]).declare {} _
  have hpath : d.directive.boundPath = "tp <player>" := by decide +kernel
  have hend : env.endOf d = some 3 := by decide +kernel
  have hquiet : (env.declare {} [d]).diagnostics = env.diagnostics := by decide +kernel
  obtain ⟨n, hn, hbinds⟩ := henv.binding_agrees.1 (rfl : d.directive.isStructural = true) hquiet
  obtain rfl := Option.some.inj (hend.symm.trans hn)
  have hbound := @hbinds env' (.single ⟨{}, _, rfl⟩) {} run .execution rfl rfl
  have hparent : (env'.tree.node 3).parent = some 1 := by decide +kernel
  have hway : env'.tree.OnWay 3 1 := .parent .self hparent
  exact ⟨hpath, hend, hbound, hway, henv'.binding_agrees.2 hbound.bindings hway (by decide)⟩

end Environment

end CommandTree
