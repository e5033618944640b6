import CommandTree.Proofs.Assembly.Bindings

/-!
# Assembling in any order

Declarations without aliases may come in any order. If no error is reported, structural declarations
bring about the facts that they declare and no others (`Describes.place`), whatever their order; and
if some order of them reports nothing, none does, since then all their facts stand together
(`Describes.quiet_place`). A binding is resolved to the command of its identities in its scope
(`exists_leads_iff`), so it depends on these facts only.

Handles differ from one order to another, and so do the order of children and the element that is
remembered as the origin of a command. The paths of the commands, what is known of them, the scopes
and the bindings are the same (`ofDeclarations_perm`).
-/

namespace CommandTree

open Namespace (Token)

theorem ArgumentInfo.Extends.antisymm {info info' : ArgumentInfo} (h : info.Extends info')
    (h' : info'.Extends info) : info' = info := by
  cases info
  cases info'
  congr 1
  · exact Option.ext fun x => ⟨h'.type, h.type⟩
  · exact Option.ext fun x => ⟨h'.suggestions, h.suggestions⟩

/-- Without aliases no token has any. -/
theorem Directive.Reads.aliases_eq_nil {directive : Directive} {route : Route}
    (h : directive.Reads route) (haliases : directive.aliases = []) :
    ∀ token ∈ route.tokens, token.aliases = [] := by
  intro token ht
  cases h with
  | command h => exact Namespace.aliases_of_tokenize h ht
  | bind h => exact Namespace.aliases_of_tokenize h ht
  | literal _ h _ _ =>
    rcases Namespace.mem_aliasLast ht with ht | ht
    · exact Namespace.aliases_of_tokenize h ht
    · rw [Namespace.getLast?_aliasLast, Option.map_eq_some_iff] at ht
      obtain ⟨last, -, rfl⟩ := ht
      exact haliases
  | argument _ h =>
    obtain ⟨read, hread, -, heq⟩ := Route.mem_nameArgument ht
    exact heq.trans (Namespace.aliases_of_tokenize h hread)

/-- What a declaration declares. -/
def Declaration.Declares (d : Declaration) (f : Fact) : Prop :=
  ∃ route, d.route? = some route ∧ Environment.Says d.element route.info [] route.tokens f

/-- The identities of the command that an element is to be bound to, with its role, if they can be
read. -/
def Declaration.bound? (names : TypeNames) (d : Declaration) :
    Option (List Identity × Role × Element) :=
  (d.element.role names).toOption.bind fun role =>
    d.route?.map fun route => (route.tokens.map (·.identity), role, d.element)

/-- A path that can be read is the route of its binding. -/
theorem route?_bind (site : Element) (path : String) :
    (⟨site, .bind path⟩ : Declaration).route? =
      (Namespace.tokenize path).toOption.map fun tokens => { text := path, tokens } := by
  simp only [Declaration.route?, readRoute, Namespace.Memo.sound_empty.fst_lex]
  cases Namespace.tokenize path <;> rfl

namespace Environment

variable {env env' : Environment} {names : TypeNames} {d : Declaration}

/-! ## What steps keep -/

/-- If nothing is reported in the end, nothing was reported on the way. -/
theorem Steps.diagnostics_eq {env₁ : Environment} (h : env.Steps env₁) (h' : env₁.Steps env')
    (henv : env.WellFormed) (hquiet : env'.diagnostics = env.diagnostics) :
    env₁.diagnostics = env.diagnostics := by
  have hfirst := (h.grows henv).diagnostics
  have hrest := (h'.grows (h.wellFormed henv)).diagnostics
  exact (hfirst.eq_of_length_le (hquiet ▸ hrest).length_le).symm

/-! ## Structural declarations -/

theorem bindings_reach (env : Environment) (site : Element) (text : String) (parent : Nat)
    (token : Token) (detail : Detail) :
    (env.reach site text parent token detail).1.bindings = env.bindings := by
  unfold reach
  split
  · rename_i existing _
    rcases env.meet_cases site text token detail (env.tree.primary existing) with
      ⟨-, message, heq⟩ | ⟨-, ⟨-, heq⟩ | ⟨info, -, ⟨message, heq⟩ | ⟨-, heq⟩⟩⟩
    all_goals simp [heq, reportConflict, Environment.report]
  · rfl

theorem bindings_foldl_addAlias (site : Element) (text : String) (token : Token) (node : Nat)
    (words : List String) (env : Environment) :
    (words.foldl (addAlias site text token node) env).bindings = env.bindings := by
  induction words generalizing env with
  | nil => rfl
  | cons word rest ih =>
    rw [List.foldl_cons, ih, addAlias]
    rcases env.tree.addAlias node word with ⟨tree, _ | _⟩ <;> rfl

theorem bindings_walk (site : Element) (text : String) (info : Option ArgumentInfo) :
    ∀ (tokens : List Token) (parent : Nat) (env : Environment),
      (walk site text info tokens parent env).1.bindings = env.bindings
  | [], _, _ => rfl
  | token :: rest, parent, env => by
    have hreach := env.bindings_reach site text parent token (detailOf info token rest)
    rw [walk]
    split
    · rename_i env₁ hr
      rwa [hr] at hreach
    · rename_i env₁ node hr
      rw [hr] at hreach
      rw [bindings_walk site text info rest, enterScope, bindings_foldl_addAlias]
      exact hreach

/-- Placing commands binds nothing. -/
theorem bindings_place (env : Environment) (d : Declaration) :
    (env.place d).bindings = env.bindings := by
  unfold place
  split
  · rfl
  · exact bindings_walk _ _ _ _ _ _

/-- A declaration that can be read is walked. -/
theorem place_of_route (hmemo : env.memo.Sound) {route : Route} (h : d.route? = some route) :
    env.place d = (walk d.element route.text route.info route.tokens 0
        { env with memo := (readRoute d.element d.directive env.memo).2 }).1 ∧
      env.endOf d = (walk d.element route.text route.info route.tokens 0
        { env with memo := (readRoute d.element d.directive env.memo).2 }).2 := by
  have hfst := (fst_readRoute_eq_ok hmemo).mpr h
  unfold place endOf
  cases hr : readRoute d.element d.directive env.memo with
  | mk result memo =>
    rw [hr] at hfst
    obtain rfl : result = .ok route := hfst
    exact ⟨rfl, rfl⟩

/-- The declarations were placed without an error, and the environment holds what they declare and
nothing else. -/
structure Describes (env : Environment) (ds : List Declaration) : Prop where
  wellFormed : env.WellFormed
  plain : env.tree.Plain
  readable : ∀ d ∈ ds, ∃ route, d.route? = some route
  holds_iff : ∀ {f}, env.Holds f ↔ ∃ d ∈ ds, d.Declares f

theorem Describes.empty : empty.Describes [] := by
  refine ⟨.empty, .empty, by simp, fun {f} => ?_⟩
  simp only [List.not_mem_nil, false_and, exists_false, iff_false]
  cases f with
  | node ids =>
    rintro ⟨n, hpos, hlt, -⟩
    rw [show Environment.empty.tree.size = 1 from rfl] at hlt
    omega
  | known ids aspect text =>
    rintro ⟨n, info, -, hinfo, -⟩
    rw [show Environment.empty.tree = Tree.empty from rfl, Tree.node_empty] at hinfo
    cases hinfo
  | entered scope ids =>
    rintro ⟨s, hs, -⟩
    cases hs

/-- A declaration that is placed without an error is walked to its end. -/
theorem walk_of_quiet (hwf : env.WellFormed)
    (hquiet : (env.place d).diagnostics = env.diagnostics) :
    ∃ route memo last, d.route? = some route ∧ d.directive.Reads route ∧
      Ready d.element route.info route.tokens 0 { env with memo } ∧
      walk d.element route.text route.info route.tokens 0 { env with memo } =
        (env.place d, some last) := by
  obtain ⟨route, -, hroute, hreads, -⟩ := arrived_of_quiet hwf hquiet
  obtain ⟨_, last, -, hend, -⟩ := endOf_of_quiet hwf hquiet
  obtain ⟨hplace, hend'⟩ := place_of_route hwf.memo hroute
  have hread := (steps_readRoute env d.element d.directive).wellFormed hwf
  rw [hend] at hend'
  exact ⟨route, _, last, hroute, hreads, .start hread d.element hreads.valid,
    Prod.ext hplace.symm hend'.symm⟩

/-- A declaration that is placed without an error brings about the facts that it declares, and no
others. -/
theorem holds_place_iff (hwf : env.WellFormed) (hplain : env.tree.Plain)
    (haliases : d.directive.aliases = []) (hquiet : (env.place d).diagnostics = env.diagnostics) :
    (env.place d).tree.Plain ∧ ∀ {f}, (env.place d).Holds f ↔ env.Holds f ∨ d.Declares f := by
  have hsteps := place_steps hwf d
  have hwf' := hsteps.wellFormed hwf
  obtain ⟨route, memo, _, hroute, hreads, hready, hwalk⟩ := walk_of_quiet hwf hquiet
  obtain ⟨_, last, hroute', -, harrived, hknows, -⟩ := arrived_of_quiet hwf hquiet
  obtain rfl := Option.some.inj (hroute.symm.trans hroute')
  obtain ⟨-, hplain', hholds⟩ :=
    holds_walk hready hplain (hreads.aliases_eq_nil haliases) hwalk
  refine ⟨hplain', fun {f} => ⟨fun hf => ?_, ?_⟩⟩
  · refine (hholds hf).imp ((holds_congr rfl rfl).mp) fun hsays => ⟨route, hroute, ?_⟩
    simpa using hsays
  · rintro (hf | ⟨route', hroute', hsays⟩)
    · exact (hsteps.extends hwf).holds hwf hwf' hf
    · obtain rfl := Option.some.inj (hroute.symm.trans hroute')
      exact holds_of_leads hplain' hwf' harrived.leads (fun _ => hknows) (by simpa using hsays)

/-- A declaration that is placed without an error adds the facts that it declares. -/
theorem Describes.place {ds : List Declaration} (h : env.Describes ds)
    (haliases : d.directive.aliases = []) (hquiet : (env.place d).diagnostics = env.diagnostics) :
    (env.place d).Describes (ds ++ [d]) := by
  have hwf := h.wellFormed
  obtain ⟨route, -, hroute, -⟩ := arrived_of_quiet hwf hquiet
  obtain ⟨hplain, hholds⟩ := holds_place_iff hwf h.plain haliases hquiet
  refine ⟨(place_steps hwf d).wellFormed hwf, hplain, ?_, fun {f} => ?_⟩
  · simpa [or_imp, forall_and, hroute] using h.readable
  · simp only [List.mem_append, List.mem_singleton, or_and_right, exists_or, exists_eq_left]
    rw [hholds, h.holds_iff]

/-- A declaration is placed without an error if its facts stand together with those that are
there. -/
theorem Describes.quiet_place {whole : Environment} {ds all : List Declaration}
    (h : env.Describes ds) (hwhole : whole.Describes all) (hsub : ds ⊆ all) (hd : d ∈ all)
    (haliases : d.directive.aliases = []) : (env.place d).diagnostics = env.diagnostics := by
  have hwf := h.wellFormed
  obtain ⟨route, hroute⟩ := hwhole.readable d hd
  have hreads := readRoute_reads hwf.memo ((fst_readRoute_eq_ok hwf.memo).mpr hroute)
  have hready := Ready.start ((steps_readRoute env d.element d.directive).wellFormed hwf) d.element
    hreads.valid
  obtain ⟨hplace, -⟩ := place_of_route hwf.memo hroute
  rw [hplace]
  generalize hmemo : (readRoute d.element d.directive env.memo).2 = memo at hready
  cases hw : walk d.element route.text route.info route.tokens 0 { env with memo } with
  | mk env₁ result =>
    cases result with
    | some last => exact (holds_walk hready h.plain (hreads.aliases_eq_nil haliases) hw).1
    | none =>
      obtain ⟨nodes, hstops⟩ := exists_stops_of_walk hready hreads.aliases_of_mem_dropLast
        (congrArg Prod.snd hw)
      have hheld : ∀ {f}, env.Holds f → whole.Holds f := fun hf => by
        obtain ⟨d', hd', hdeclares⟩ := h.holds_iff.mp hf
        exact hwhole.holds_iff.mpr ⟨d', hsub hd', hdeclares⟩
      have hsaid : ∀ {f}, Says d.element route.info (env.tree.identities 0) route.tokens f →
          whole.Holds f := fun hsays =>
        hwhole.holds_iff.mpr ⟨d, hd, route, hroute, by simpa using hsays⟩
      exact (not_stops_of_held h.plain hwf hwhole.wellFormed hheld hstops hsaid).elim

/-- Declarations that are placed without an error. -/
theorem Describes.foldl {ds rest : List Declaration} (h : env.Describes ds)
    (haliases : ∀ d ∈ rest, d.directive.aliases = [])
    (hquiet : (rest.foldl Environment.place env).diagnostics = env.diagnostics) :
    (rest.foldl Environment.place env).Describes (ds ++ rest) := by
  induction rest generalizing env ds with
  | nil => simpa using h
  | cons d rest ih =>
    rw [List.forall_mem_cons] at haliases
    have hsteps := place_steps h.wellFormed d
    have hfirst := hsteps.diagnostics_eq
      (foldl_steps place_steps rest (hsteps.wellFormed h.wellFormed)) h.wellFormed hquiet
    rw [List.append_cons]
    exact ih (h.place haliases.1 hfirst) haliases.2 (hquiet.trans hfirst.symm)

/-- Declarations are placed without an error if an environment describes them all. -/
theorem Describes.quiet_foldl {whole : Environment} {ds rest all : List Declaration}
    (h : env.Describes ds) (hwhole : whole.Describes all) (hsub : ds ⊆ all) (hrest : rest ⊆ all)
    (haliases : ∀ d ∈ rest, d.directive.aliases = []) :
    (rest.foldl Environment.place env).diagnostics = env.diagnostics := by
  induction rest generalizing env ds with
  | nil => rfl
  | cons d rest ih =>
    rw [List.forall_mem_cons] at haliases
    obtain ⟨hd, hrest⟩ := List.cons_subset.mp hrest
    have hfirst := h.quiet_place hwhole hsub hd haliases.1
    have hsub' : ds ++ [d] ⊆ all := List.append_subset.mpr ⟨hsub, by simpa using hd⟩
    exact (ih (h.place haliases.1 hfirst) hsub' hrest haliases.2).trans hfirst

/-! ## Bindings -/

theorem Leads.append {site : Element} {a b c : Nat} {ids ids' : List Identity}
    (h : env.Leads site a ids b) (h' : env.Leads site b ids' c) :
    env.Leads site a (ids ++ ids') c := by
  induction h with
  | nil _ => exact h'
  | cons hfind hkind hscope _ ih => exact .cons hfind hkind hscope (ih h')

/-- A way without aliases is told by the identities of its nodes. -/
theorem Leads.identities {site : Element} {parent last : Nat} {ids : List Identity}
    (h : env.Leads site parent ids last) (henv : env.WellFormed) (hplain : env.tree.Plain) :
    env.tree.identities last = env.tree.identities parent ++ ids := by
  induction h with
  | nil _ => simp
  | @cons parent child last identity rest hfind hkind _ _ ih =>
    rw [hplain.primary] at hkind ih
    have hids := hplain.identities_of_find henv.tree hfind hkind
    rw [ih, hids, List.append_assoc]
    rfl

/-- The identities of a node in a scope lead to it. -/
theorem leads_of_inScope (henv : env.WellFormed) (hplain : env.tree.Plain) {site : Element}
    {n : Nat} (h : env.InScope site n) : env.Leads site 0 (env.tree.identities n) n := by
  induction n using Nat.strongRecOn with
  | ind n ih =>
    obtain ⟨s, hs, hname, hn⟩ := id h
    obtain ⟨p, hp, hor⟩ := (henv.rooted hs).parent hn
    have hfind := henv.tree.find_of_parent hp
    have hlast : env.Leads site p [(env.tree.node n).identity] n := by
      have hprimary := hplain.primary n
      refine .cons hfind (by rw [hprimary]) (by rwa [hprimary]) ?_
      rw [hprimary]
      exact .nil n
    rw [henv.tree.identities_of_parent hp]
    refine Leads.append ?_ hlast
    rcases hor with rfl | hmem
    · rw [Tree.identities_zero]
      exact .nil 0
    · exact ih p (henv.tree.parent_lt hp).2.2.1 ⟨s, hs, hname, hmem⟩

/-- A binding depends on facts only. -/
theorem exists_leads_iff (henv : env.WellFormed) (hplain : env.tree.Plain) {site : Element}
    {ids : List Identity} (hne : ids ≠ []) :
    (∃ n, env.Leads site 0 ids n) ↔ env.Holds (.entered site.scope ids) := by
  constructor
  · rintro ⟨n, hleads⟩
    obtain ⟨s, hs, hname, hn⟩ := hleads.inScope hne
    exact ⟨s, hs, hname, n, hn, by simpa using hleads.identities henv hplain⟩
  · rintro ⟨s, hs, hname, n, hn, rfl⟩
    exact ⟨n, leads_of_inScope henv hplain ⟨s, hs, hname, hn⟩⟩

namespace Alike

theorem plain (h : env.Alike env') (hplain : env.tree.Plain) : env'.tree.Plain :=
  fun n => (h.links n).aliasOf.trans (hplain n)

/-- Bindings are no facts. -/
theorem holds_iff (h : env.Alike env') {f : Fact} : env'.Holds f ↔ env.Holds f := by
  cases f <;> simp only [Holds, h.size, h.identities, h.detail, h.scopes]

end Alike

/-- A binding, with the identities of its command in place of the handle. -/
def told (env : Environment) (b : Binding) : List Identity × Role × Element :=
  (env.tree.identities b.node, b.role, b.site)

/-- What a binding tells does not depend on the bindings. -/
theorem Alike.told (h : env.Alike env') : env'.told = env.told :=
  funext fun b => by simp only [Environment.told, h.identities]

/-- An element that is bound without an error is bound to the command that is declared. -/
theorem told_bindElement (henv : env.Orderly) (hplain : env.tree.Plain)
    (hd : d.directive.isStructural = false)
    (hquiet : (bindElement names env d).diagnostics = env.diagnostics) :
    ∃ b, d.bound? names = some b ∧ env.Holds (.entered d.element.scope b.1) ∧
      (bindElement names env d).bindings.map (bindElement names env d).told =
        env.bindings.map env.told ++ [b] := by
  rcases bindElement_cases names henv d with
    ⟨memo, added, hne, -, heq⟩ | ⟨route, role, node, hreads, hrole, hleads, hbinds⟩
  · rw [heq] at hquiet
    exact absurd (by simpa using hquiet) hne
  · have hroute : d.route? = some route := by
      obtain ⟨site, directive⟩ := d
      cases hreads with
      | bind h => rw [route?_bind, h]; rfl
      | _ => cases hd
    have hids : env.tree.identities node = route.tokens.map (·.identity) := by
      simpa using hleads.identities henv.toWellFormed hplain
    refine ⟨(route.tokens.map (·.identity), role, d.element), ?_, ?_, ?_⟩
    · simp [Declaration.bound?, hrole, hroute, Except.toOption]
    · exact (exists_leads_iff henv.toWellFormed hplain (by simpa using hreads.valid.tokens_ne)).mp
        ⟨node, hleads⟩
    · rw [hbinds.bindings, List.map_append, List.map_singleton, hbinds.alike.told]
      simp only [told, hids]

/-- An element is bound without an error if its command is in its scope. -/
theorem quiet_bindElement (henv : env.Orderly) (hplain : env.tree.Plain)
    (hd : d.directive.isStructural = false) {b : List Identity × Role × Element}
    (hb : d.bound? names = some b) (hheld : env.Holds (.entered d.element.scope b.1)) :
    (bindElement names env d).diagnostics = env.diagnostics := by
  obtain ⟨site, directive⟩ := d
  cases directive with
  | bind path =>
    simp only [Declaration.bound?, Option.bind_eq_some_iff, Option.map_eq_some_iff, route?_bind]
      at hb
    obtain ⟨role, hrole, route, ⟨tokens, htokens, rfl⟩, rfl⟩ := hb
    have hread : Namespace.tokenize path = .ok tokens := by
      cases h : Namespace.tokenize path <;> simp_all [Except.toOption]
    have hrole : site.role names = .ok role := by
      cases h : site.role names <;> simp_all [Except.toOption]
    obtain ⟨n, hleads⟩ := (exists_leads_iff henv.toWellFormed hplain
      (by simpa using Namespace.ne_nil_of_tokenize hread)).mpr hheld
    exact (binds_of_leads henv hrole hread hleads).diagnostics
  | _ => cases hd

/-- Elements that are bound without an error are bound to the commands that are declared. -/
theorem told_foldl_bindElement {bs : List Declaration} (henv : env.Orderly)
    (hplain : env.tree.Plain) (hbs : ∀ d ∈ bs, d.directive.isStructural = false)
    (hquiet : (bs.foldl (bindElement names) env).diagnostics = env.diagnostics) :
    (∀ d ∈ bs, ∃ b, d.bound? names = some b ∧ env.Holds (.entered d.element.scope b.1)) ∧
      (bs.foldl (bindElement names) env).bindings.map (bs.foldl (bindElement names) env).told =
        env.bindings.map env.told ++ bs.filterMap (·.bound? names) := by
  induction bs generalizing env with
  | nil => exact ⟨by simp, by simp⟩
  | cons d rest ih =>
    rw [List.forall_mem_cons] at hbs
    have hsteps := bindElement_steps names henv.toWellFormed d
    have hfirst := hsteps.diagnostics_eq (foldl_steps (bindElement_steps names) rest
      (hsteps.wellFormed henv.toWellFormed)) henv.toWellFormed hquiet
    have halike := (bindElement_adds names henv d).1
    obtain ⟨b, hb, hheld, htold⟩ := told_bindElement henv hplain hbs.1 hfirst
    obtain ⟨hrest, htold'⟩ := ih (hsteps.orderly henv) (halike.plain hplain) hbs.2
      (hquiet.trans hfirst.symm)
    refine ⟨List.forall_mem_cons.mpr ⟨⟨b, hb, hheld⟩, fun d' hd' => ?_⟩, ?_⟩
    · obtain ⟨b', hb', hheld'⟩ := hrest d' hd'
      exact ⟨b', hb', halike.holds_iff.mp hheld'⟩
    · rw [List.foldl_cons, htold', htold, List.filterMap_cons_some hb, List.append_assoc]
      rfl

/-- Elements are bound without an error if their commands are in their scopes. -/
theorem quiet_foldl_bindElement {bs : List Declaration} (henv : env.Orderly)
    (hplain : env.tree.Plain) (hbs : ∀ d ∈ bs, d.directive.isStructural = false)
    (hbound : ∀ d ∈ bs, ∃ b, d.bound? names = some b ∧
      env.Holds (.entered d.element.scope b.1)) :
    (bs.foldl (bindElement names) env).diagnostics = env.diagnostics := by
  induction bs generalizing env with
  | nil => rfl
  | cons d rest ih =>
    rw [List.forall_mem_cons] at hbs hbound
    obtain ⟨b, hb, hheld⟩ := hbound.1
    have hfirst := quiet_bindElement henv hplain hbs.1 hb hheld
    have halike := (bindElement_adds names henv d).1
    have hsteps := bindElement_steps names henv.toWellFormed d
    refine (ih (hsteps.orderly henv) (halike.plain hplain) hbs.2 fun d' hd' => ?_).trans hfirst
    obtain ⟨b', hb', hheld'⟩ := hbound.2 d' hd'
    exact ⟨b', hb', halike.holds_iff.mpr hheld'⟩

/-! ## Environments of the same facts -/

/-- The path and the detail of a node. -/
def describe (env : Environment) (n : Nat) : String × Detail :=
  (env.tree.path n, (env.tree.node n).detail)

/-- The environments have the same commands, scopes and bindings, told by their paths. -/
structure SameContents (env env' : Environment) : Prop where
  nodes : ((List.range env.tree.size).map env.describe).Perm
    ((List.range env'.tree.size).map env'.describe)
  scopes : (env.scopes.map (·.name)).Perm (env'.scopes.map (·.name))
  scope_nodes : ∀ {s s'}, s ∈ env.scopes → s' ∈ env'.scopes → s'.name = s.name →
    (s.nodes.map env.tree.path).Perm (s'.nodes.map env'.tree.path)
  bindings : (env.bindings.map fun b => (env.tree.path b.node, b.role, b.site)).Perm
    (env'.bindings.map fun b => (env'.tree.path b.node, b.role, b.site))

/-- What is known of an argument is known in an environment that holds the same facts. -/
theorem known_extends_of_held (henv' : env'.WellFormed) (hheld : ∀ f, env.Holds f → env'.Holds f)
    {n n' : Nat} (hids : env'.tree.identities n' = env.tree.identities n)
    {info info' : ArgumentInfo}
    (hinfo : (env.tree.node n).detail = .argument info)
    (hinfo' : (env'.tree.node n').detail = .argument info') : info.Extends info' := by
  have habout : ∀ {aspect text}, info.about aspect = some text →
      info'.about aspect = some text := by
    intro aspect text h
    obtain ⟨m, known, hm, hknown, htext⟩ := hheld (.known _ aspect text) ⟨n, info, rfl, hinfo, h⟩
    obtain rfl := henv'.tree.identities_inj (lt_of_argument hknown) (lt_of_argument hinfo')
      (hm.trans hids.symm)
    rwa [Detail.argument.inj (hknown.symm.trans hinfo')] at htext
  exact ⟨@habout .type, @habout .suggestions⟩

/-- A node of one environment is there in the other. -/
theorem exists_node_of_held (henv : env.WellFormed) (henv' : env'.WellFormed)
    (hheld : ∀ f, env.Holds f ↔ env'.Holds f) {n : Nat} (hn : n < env.tree.size) :
    ∃ n' < env'.tree.size, env'.tree.identities n' = env.tree.identities n ∧
      (env'.tree.node n').detail = (env.tree.node n).detail := by
  rcases Nat.eq_zero_or_pos n with rfl | hpos
  · exact ⟨0, henv'.tree.root_lt, by simp, by rw [henv.tree.root_detail, henv'.tree.root_detail]⟩
  · obtain ⟨n', hpos', hn', hids⟩ := (hheld (.node _)).mp ⟨n, hpos, hn, rfl⟩
    refine ⟨n', hn', hids, ?_⟩
    have hidentity : (env'.tree.node n').identity = (env.tree.node n).identity := by
      obtain ⟨p, hp, -⟩ := henv.tree.parent hpos hn
      obtain ⟨p', hp', -⟩ := henv'.tree.parent hpos' hn'
      rw [henv.tree.identities_of_parent hp, henv'.tree.identities_of_parent hp'] at hids
      simpa using (List.append_inj' hids rfl).2
    have hfits := henv.tree.detail hpos hn
    have hfits' := henv'.tree.detail hpos' hn'
    rw [hidentity] at hfits'
    cases hkind : (env.tree.node n).identity.kind with
    | literal =>
      rw [hkind] at hfits hfits'
      rw [hfits.eq_literal, hfits'.eq_literal]
    | argument =>
      obtain ⟨info, hinfo⟩ := hfits.argument_iff.mpr hkind
      obtain ⟨info', hinfo'⟩ := hfits'.argument_iff.mpr hkind
      have hext := known_extends_of_held henv' (fun f => (hheld f).mp) hids hinfo hinfo'
      have hext' := known_extends_of_held henv (fun f => (hheld f).mpr) hids.symm hinfo' hinfo
      rw [hinfo, hinfo', hext.antisymm hext']

/-- A node, with the identities on its way in place of the handle. -/
def toldNode (env : Environment) (n : Nat) : List Identity × Detail :=
  (env.tree.identities n, (env.tree.node n).detail)

theorem nodup_toldNode (henv : env.WellFormed) :
    ((List.range env.tree.size).map env.toldNode).Nodup := by
  refine List.Nodup.map_on ?_ List.nodup_range
  intro a ha b hb h
  exact henv.tree.identities_inj (List.mem_range.mp ha) (List.mem_range.mp hb) (congrArg Prod.fst h)

/-- Environments that hold the same facts tell the same nodes. -/
theorem mem_toldNode_of_held (henv : env.WellFormed) (henv' : env'.WellFormed)
    (hheld : ∀ f, env.Holds f ↔ env'.Holds f) {x : List Identity × Detail}
    (hx : x ∈ (List.range env.tree.size).map env.toldNode) :
    x ∈ (List.range env'.tree.size).map env'.toldNode := by
  obtain ⟨n, hn, rfl⟩ := List.mem_map.mp hx
  obtain ⟨n', hn', hids, hdetail⟩ := exists_node_of_held henv henv' hheld (List.mem_range.mp hn)
  exact List.mem_map.mpr ⟨n', List.mem_range.mpr hn', Prod.ext hids hdetail⟩

/-- The environments have the same nodes. -/
theorem perm_toldNode (henv : env.WellFormed) (henv' : env'.WellFormed)
    (hheld : ∀ f, env.Holds f ↔ env'.Holds f) :
    ((List.range env.tree.size).map env.toldNode).Perm
      ((List.range env'.tree.size).map env'.toldNode) :=
  (List.perm_ext_iff_of_nodup (nodup_toldNode henv) (nodup_toldNode henv')).mpr fun _ =>
    ⟨mem_toldNode_of_held henv henv' hheld,
      mem_toldNode_of_held henv' henv fun f => (hheld f).symm⟩

/-- A type that has a scope has one in an environment that holds the same facts. -/
theorem mem_scopes_of_held (hne : ∀ s ∈ env.scopes, s.nodes ≠ [])
    (hheld : ∀ f, env.Holds f → env'.Holds f) {name : String} (h : name ∈ env.scopes.map (·.name)) :
    name ∈ env'.scopes.map (·.name) := by
  obtain ⟨s, hs, rfl⟩ := List.mem_map.mp h
  obtain ⟨n, hn⟩ := List.exists_mem_of_ne_nil _ (hne s hs)
  obtain ⟨s', hs', hname, -⟩ := hheld (.entered _ _) ⟨s, hs, rfl, n, hn, rfl⟩
  exact List.mem_map.mpr ⟨s', hs', hname⟩

theorem nodup_scope_identities (henv : env.WellFormed) {s : Scope} (hs : s ∈ env.scopes) :
    (s.nodes.map env.tree.identities).Nodup := by
  refine List.Nodup.map_on ?_ (henv.rooted hs).nodup
  intro a ha b hb h
  exact henv.tree.identities_inj (henv.node_lt hs ha).2 (henv.node_lt hs hb).2 h

/-- Environments that hold the same facts tell the same nodes of a scope. -/
theorem mem_scope_identities_of_held (henv' : env'.WellFormed)
    (hheld : ∀ f, env.Holds f → env'.Holds f) {s s' : Scope} (hs : s ∈ env.scopes)
    (hs' : s' ∈ env'.scopes) (hname : s'.name = s.name) {ids : List Identity}
    (h : ids ∈ s.nodes.map env.tree.identities) : ids ∈ s'.nodes.map env'.tree.identities := by
  obtain ⟨n, hn, rfl⟩ := List.mem_map.mp h
  obtain ⟨s'', hs'', hname', n', hn', hids⟩ := hheld (.entered _ _) ⟨s, hs, rfl, n, hn, rfl⟩
  obtain rfl := Scope.eq_of_name_eq henv'.scope_names hs'' hs' (hname'.trans hname.symm)
  exact List.mem_map.mpr ⟨n', hn', hids⟩

/-- The environments have the same nodes in the scope of a type. -/
theorem perm_scope_identities (henv : env.WellFormed) (henv' : env'.WellFormed)
    (hheld : ∀ f, env.Holds f ↔ env'.Holds f) {s s' : Scope} (hs : s ∈ env.scopes)
    (hs' : s' ∈ env'.scopes) (hname : s'.name = s.name) :
    (s.nodes.map env.tree.identities).Perm (s'.nodes.map env'.tree.identities) :=
  (List.perm_ext_iff_of_nodup (nodup_scope_identities henv hs)
    (nodup_scope_identities henv' hs')).mpr fun _ =>
      ⟨mem_scope_identities_of_held henv' (fun f => (hheld f).mp) hs hs' hname,
        mem_scope_identities_of_held henv (fun f => (hheld f).mpr) hs' hs hname.symm⟩

/-- The namespace of a node with these identities. -/
def pathOf (ids : List Identity) : String :=
  " ".intercalate (ids.map Identity.display)

/-- Environments that hold the same facts and have the same bindings have the same contents. -/
theorem sameContents_of_held (henv : env.WellFormed) (henv' : env'.WellFormed)
    (hne : ∀ s ∈ env.scopes, s.nodes ≠ []) (hne' : ∀ s ∈ env'.scopes, s.nodes ≠ [])
    (hheld : ∀ f, env.Holds f ↔ env'.Holds f)
    (hbindings : (env.bindings.map env.told).Perm (env'.bindings.map env'.told)) :
    env.SameContents env' where
  nodes := by
    have hperm := (perm_toldNode henv henv' hheld).map fun x => (pathOf x.1, x.2)
    rwa [List.map_map, List.map_map] at hperm
  scopes := (List.perm_ext_iff_of_nodup henv.scope_names henv'.scope_names).mpr fun _ =>
    ⟨mem_scopes_of_held hne fun f => (hheld f).mp, mem_scopes_of_held hne' fun f => (hheld f).mpr⟩
  scope_nodes hs hs' hname := by
    have hperm := (perm_scope_identities henv henv' hheld hs hs' hname).map pathOf
    rwa [List.map_map, List.map_map] at hperm
  bindings := by
    have hperm := hbindings.map fun x => (pathOf x.1, x.2)
    rwa [List.map_map, List.map_map] at hperm

/-! ## Any order -/

/-- What the declarations of a call come to if nothing is reported: the structural ones are
described, and the others bind elements of their scopes. -/
theorem describes_of_quiet {settings : Settings} {ds : List Declaration}
    (haliases : ∀ d ∈ ds, d.directive.aliases = [])
    (hquiet : (ofDeclarations settings ds).diagnostics = []) :
    let placed := (ds.filter (·.directive.isStructural)).foldl place empty
    placed.Describes (ds.filter (·.directive.isStructural)) ∧
      placed.Alike (ofDeclarations settings ds) ∧
      (∀ d ∈ ds.filter (!·.directive.isStructural), ∃ b, d.bound? settings.types = some b ∧
        placed.Holds (.entered d.element.scope b.1)) ∧
      (ofDeclarations settings ds).bindings.map (ofDeclarations settings ds).told =
        (ds.filter (!·.directive.isStructural)).filterMap (·.bound? settings.types) := by
  intro placed
  have hplaced : empty.Steps placed := foldl_steps place_steps _ .empty
  have hbound : placed.Steps (ofDeclarations settings ds) :=
    foldl_steps (bindElement_steps settings.types) _ (hplaced.wellFormed .empty)
  have hfirst : placed.diagnostics = empty.diagnostics :=
    hplaced.diagnostics_eq hbound .empty hquiet
  have hdescribes := Describes.empty.foldl
    (fun d hd => haliases d (List.mem_filter.mp hd).1) hfirst
  have hbindings : placed.bindings = [] :=
    List.foldlRecOn (motive := fun env : Environment => env.bindings = []) _ _ rfl
      fun env hnil d _ => (env.bindings_place d).trans hnil
  have halike := (foldl_bindElement_adds settings.types (hplaced.orderly .empty)
    (ds.filter (!·.directive.isStructural))).1
  obtain ⟨hheld, htold⟩ := told_foldl_bindElement (hplaced.orderly .empty) hdescribes.plain
    (fun d hd => by simpa using (List.mem_filter.mp hd).2) (hquiet.trans hfirst.symm)
  rw [hbindings] at htold
  exact ⟨hdescribes, halike, hheld, htold⟩

/-- Declarations without aliases that report nothing report nothing in any other order, and lead to
the same commands, scopes and bindings. -/
theorem ofDeclarations_perm (settings : Settings) {ds ds' : List Declaration} (hperm : ds.Perm ds')
    (haliases : ∀ d ∈ ds, d.directive.aliases = [])
    (hquiet : (ofDeclarations settings ds).diagnostics = []) :
    (ofDeclarations settings ds').diagnostics = [] ∧
      (ofDeclarations settings ds).SameContents (ofDeclarations settings ds') := by
  have haliases' : ∀ d ∈ ds', d.directive.aliases = [] := fun d hd =>
    haliases d (hperm.mem_iff.mpr hd)
  have hstructural := hperm.filter (·.directive.isStructural)
  have hbinds := hperm.filter (!·.directive.isStructural)
  obtain ⟨hdescribes, halike, hheld, htold⟩ := describes_of_quiet haliases hquiet
  have hplaced := Describes.empty.quiet_foldl hdescribes (by simp) hstructural.symm.subset
    (fun d hd => haliases' d (List.mem_filter.mp hd).1)
  have hdescribes' := Describes.empty.foldl
    (fun d hd => haliases' d (List.mem_filter.mp hd).1) hplaced
  have hsame : ∀ f, ((ds.filter (·.directive.isStructural)).foldl place empty).Holds f ↔
      ((ds'.filter (·.directive.isStructural)).foldl place empty).Holds f := fun f => by
    rw [hdescribes.holds_iff, hdescribes'.holds_iff]
    simp only [List.nil_append, hstructural.mem_iff]
  have hquiet' : (ofDeclarations settings ds').diagnostics = [] := by
    refine (quiet_foldl_bindElement ((foldl_steps place_steps _ .empty).orderly .empty)
      hdescribes'.plain (fun d hd => by simpa using (List.mem_filter.mp hd).2)
      fun d hd => ?_).trans hplaced
    obtain ⟨b, hb, hentered⟩ := hheld d (hbinds.mem_iff.mpr hd)
    exact ⟨b, hb, (hsame _).mp hentered⟩
  obtain ⟨-, halike', -, htold'⟩ := describes_of_quiet haliases' hquiet'
  have hsound : ∀ ds, (ofDeclarations settings ds).WellFormed := fun ds =>
    (assembled_ofDeclarations settings ds).sound.toWellFormed
  have hne : ∀ ds, ∀ s ∈ (ofDeclarations settings ds).scopes, s.nodes ≠ [] := fun ds =>
    (declare_steps settings.types .empty ds).scopes_ne_nil (by simp [Environment.empty])
  refine ⟨hquiet', sameContents_of_held (hsound ds) (hsound ds') (hne ds) (hne ds')
    (fun f => by rw [halike.holds_iff, halike'.holds_iff, hsame f]) ?_⟩
  rw [htold, htold']
  exact hbinds.filterMap _

/-- Two types that share a literal. What the second type says of the argument comes before it is
declared, and the bindings come before the commands. -/
theorem teleport_ofDeclarations_perm :
    let run : Element := { owner := some "Teleport", name := "run", kind := .method }
    let home : Element := { owner := some "Home", name := "run", kind := .method }
    let ds : List Declaration :=
      [⟨run, .command "teleport <player> now"⟩, ⟨home, .literal ["teleport", "home"] []⟩,
        ⟨home, .argument ["teleport", "player"] "Player" none⟩,
        ⟨run, .argument ["teleport", "player"] "Player" (some "online")⟩,
        ⟨home, .bind "teleport home"⟩, ⟨run, .bind "teleport <player> now"⟩]
    (ofDeclarations {} ds).diagnostics = [] ∧ (ofDeclarations {} ds).tree.size = 5 ∧
      (ofDeclarations {} ds.reverse).diagnostics = [] ∧
      (ofDeclarations {} ds).SameContents (ofDeclarations {} ds.reverse) := by
  intro run home ds
  have hquiet : (ofDeclarations {} ds).diagnostics = [] := by decide +kernel
  have hsize : (ofDeclarations {} ds).tree.size = 5 := by decide +kernel
  exact ⟨hquiet, hsize, ofDeclarations_perm {} (List.reverse_perm ds).symm (by decide) hquiet⟩

end Environment

end CommandTree
