import CommandTree.Proofs.Assembly.Interleaving
import CommandTree.Proofs.Lints

/-!
# Lints of embedded environments

A node inside has the bindings that it has in the smaller environment (`Embeds.bindingsOf`), and a
node outside has none of these types (`Embeds.scope_of_outside`). So each lint says the same of what
is inside, in the same order, and what it says of the rest is said of other types
(`Embeds.filter_run`).
-/

namespace CommandTree

/-- What gives nothing may be left out before. -/
theorem flatMap_filter_of_nil {α β : Type} {p : α → Bool} {f : α → List β} {as : List α}
    (h : ∀ a ∈ as, p a = false → f a = []) : (as.filter p).flatMap f = as.flatMap f := by
  induction as with
  | nil => rfl
  | cons a rest ih =>
    rw [List.forall_mem_cons] at h
    rw [List.filter_cons, List.flatMap_cons, ← ih h.2]
    split
    · rw [List.flatMap_cons]
    · rw [h.1 (by simp_all), List.nil_append]

/-- What is said of things that belong to types is said of the things of these types. -/
theorem filter_flatMap_of_site {α : Type} (scope : α → String) {f : α → List Diagnostic}
    {as : List α} {types : List String} (h : ∀ a ∈ as, ∀ d ∈ f a, d.site.scope = scope a) :
    ((as.flatMap f).filter fun d => d.site.scope ∈ types) =
      (as.filter fun a => scope a ∈ types).flatMap f := by
  induction as with
  | nil => rfl
  | cons a rest ih =>
    rw [List.forall_mem_cons] at h
    have hfirst : ((f a).filter fun d => d.site.scope ∈ types) =
        if scope a ∈ types then f a else [] := by
      split
      next hmem => exact List.filter_eq_self.mpr fun d hd => decide_eq_true (by rwa [h.1 d hd])
      next hmem =>
        exact List.filter_eq_nil_iff.mpr fun d hd htypes =>
          hmem (h.1 d hd ▸ of_decide_eq_true htypes)
    rw [List.flatMap_cons, List.filter_append, ih h.2, hfirst, List.filter_cons]
    by_cases hmem : scope a ∈ types <;> simp [hmem]

namespace Lint

theorem distinct_congr {α : Type} [DecidableEq α] {as seen seen' : List α}
    (h : ∀ a ∈ as, a ∈ seen ↔ a ∈ seen') : distinct seen as = distinct seen' as := by
  induction as generalizing seen seen' with
  | nil => rfl
  | cons a rest ih =>
    rw [List.forall_mem_cons] at h
    have hrest : distinct (a :: seen) rest = distinct (a :: seen') rest :=
      ih fun b hb => by rw [List.mem_cons, List.mem_cons, h.2 b hb]
    rw [distinct, distinct, ih h.2, hrest]
    simp only [h.1]

theorem filter_distinct {α : Type} [DecidableEq α] (p : α → Bool) (seen as : List α) :
    (distinct seen as).filter p = distinct seen (as.filter p) := by
  induction as generalizing seen with
  | nil => rfl
  | cons a rest ih =>
    rw [distinct, List.filter_cons]
    by_cases hseen : a ∈ seen
    · rw [if_pos hseen, ih]
      split
      · rw [distinct, if_pos hseen]
      · rfl
    · rw [if_neg hseen, List.filter_cons, ih]
      split
      · rw [distinct, if_neg hseen]
      · rename_i hp
        refine distinct_congr fun b hb => ?_
        have hne : b ≠ a := fun heq => hp (heq ▸ (List.mem_filter.mp hb).2)
        simp [hne]

theorem site_of_mem_duplicatesOf {env : Environment} {n : Nat} {role : Role} {d : Diagnostic}
    (h : d ∈ duplicatesOf env n role) : ∃ b ∈ env.bindingsOf n, d.site = b.site := by
  unfold duplicatesOf at h
  dsimp only at h
  split at h
  · cases h
  · obtain ⟨b, hb, rfl⟩ := List.mem_map.mp h
    exact ⟨b, (List.mem_filter.mp hb).1, rfl⟩

/-- A missing type is reported in its scope. -/
theorem scope_of_mem_checkType {env : Environment} {s : Scope} (hs : s.site.scope = s.name)
    {n : Nat} {d : Diagnostic} (h : d ∈ checkType env s n) : d.site.scope = s.name := by
  unfold checkType at h
  split at h
  · split at h
    · rw [List.mem_singleton.mp h]
      exact hs
    · rename_i b _ hb
      have hscope := List.find?_some hb
      rw [List.mem_singleton.mp h]
      simp only [Bool.and_eq_true, beq_iff_eq] at hscope
      exact hscope.2
    · cases h
  · cases h

theorem site_of_mem_checkPlace {env : Environment} {b : Binding} {d : Diagnostic}
    (h : d ∈ checkPlace env b) : d.site = b.site := by
  unfold checkPlace at h
  split at h
  · rw [List.mem_singleton.mp h]
    rfl
  · cases h

theorem site_of_mem_checkLeaf {env : Environment} {n : Nat} {d : Diagnostic}
    (h : d ∈ checkLeaf env n) : d.site ∈ (env.tree.node n).origin := by
  unfold checkLeaf at h
  dsimp only at h
  split at h
  · obtain ⟨site, hsite, rfl⟩ := Option.map_eq_some_iff.mp h
    exact hsite
  · cases h

end Lint

theorem Scope.scope_ofSite (site : Element) : (ofSite site).site.scope = (ofSite site).name := by
  obtain ⟨owner, -⟩ := site
  cases owner <;> rfl

namespace Environment

/-! ## The site of a scope -/

/-- The site of a scope is of its type. -/
theorem Steps.scope_site {env env' : Environment} (h : env.Steps env')
    (henv : ∀ s ∈ env.scopes, s.site.scope = s.name) :
    ∀ s ∈ env'.scopes, s.site.scope = s.name := by
  induction h with
  | refl => exact henv
  | tail _ hstep ih =>
    cases hstep with
    | enterScope _ _ _ =>
      intro s hs
      rcases Scope.mem_enter hs with hs | ⟨old, rfl, -, hold | ⟨rfl, -⟩⟩
      · exact ih s hs
      · exact ih old hold
      · exact Scope.scope_ofSite _
    | _ => exact ih

/-- The site of a scope is of its type. -/
theorem Assembled.scope_site {env : Environment} (h : Assembled env) :
    ∀ s ∈ env.scopes, s.site.scope = s.name := by
  induction h with
  | empty => simp [Environment.empty]
  | declare h names ds ih => exact (declare_steps names h.sound.toWellFormed ds).scope_site ih

variable {types names : List String} {r : Nat → Nat} {part whole : Environment}
  (h : part.Embeds types names r whole) (hpart : part.Sound) (hwhole : whole.Sound)

namespace Embeds

/-! ## Bindings -/

include h in
theorem scope_of_mem_bindings {b : Binding} (hb : b ∈ part.bindings) : b.site.scope ∈ types := by
  have hmem : b.image r ∈ part.bindings.map (.image r) := List.mem_map_of_mem hb
  rw [← h.bindings, List.mem_filter] at hmem
  exact of_decide_eq_true hmem.2

include h hwhole in
/-- A node outside is bound to elements of other types. -/
theorem outside_iff (hpart : part.WellFormed) {b : Binding} (hb : b ∈ whole.bindings) :
    part.tree.Outside r b.node ↔ b.site.scope ∉ types := by
  obtain ⟨s, hs, hname, hnode⟩ := hwhole.sited hb
  rw [← hname]
  constructor
  · intro hout htypes
    obtain ⟨n, -, hlt, heq⟩ := h.exists_of_mem hpart hs htypes hnode
    exact hout n hlt heq
  · exact fun htypes => h.others hs htypes b.node hnode

include h hpart hwhole

/-- A node inside has the same bindings in both environments. -/
theorem bindingsOf {n : Nat} (hlt : n < part.tree.size) :
    whole.bindingsOf (r n) = (part.bindingsOf n).map (.image r) := by
  have hprimary := hpart.tree.primary_lt hlt
  rw [hpart.bindingsOf_eq_filter, hwhole.bindingsOf_eq_filter,
    h.tree.primary hpart.tree hwhole.tree hlt]
  have hinside : whole.bindings.filter (·.node == r (part.tree.primary n)) =
      (whole.bindings.filter fun b => b.site.scope ∈ types).filter
        (·.node == r (part.tree.primary n)) := by
    rw [List.filter_filter]
    refine List.filter_congr fun b hb => ?_
    by_cases heq : b.node = r (part.tree.primary n)
    · have htypes : b.site.scope ∈ types := by
        by_contra hno
        exact (h.outside_iff hwhole hpart.toWellFormed hb).mpr hno _ hprimary heq.symm
      simp [heq, htypes]
    · simp [heq]
  rw [hinside, h.bindings, List.filter_map]
  refine congrArg (List.map _) (List.filter_congr fun b hb => Bool.eq_iff_iff.mpr ?_)
  simp only [Function.comp_apply, Binding.image, beq_iff_eq]
  exact ⟨h.tree.inj (hpart.bound_lt hb) hprimary, congrArg r⟩

theorem scope_of_outside {id : Nat} (hid : part.tree.Outside r id) {b : Binding}
    (hb : b ∈ whole.bindingsOf id) : b.site.scope ∉ types := by
  rw [hwhole.bindingsOf_eq_filter, List.mem_filter, beq_iff_eq] at hb
  rw [← h.outside_iff hwhole hpart.toWellFormed hb.1, hb.2]
  exact h.tree.outside_primary hpart.tree hwhole.tree hid

/-! ## The lints -/

/-- What is said of each command, if nothing is said of the types for a node outside. -/
theorem filter_flatMap_commands {f g : Nat → List Diagnostic}
    (hin : ∀ n ∈ part.tree.commands, ((f (r n)).filter fun d => d.site.scope ∈ types) = g n)
    (hout : ∀ id, part.tree.Outside r id → ((f id).filter fun d => d.site.scope ∈ types) = []) :
    ((whole.tree.commands.flatMap f).filter fun d => d.site.scope ∈ types) =
      part.tree.commands.flatMap g := by
  have hinside : ∀ id ∈ whole.tree.commands,
      decide (id ∈ (List.range part.tree.size).map r) = false →
        ((f id).filter fun d => d.site.scope ∈ types) = [] := by
    intro id _ hid
    refine hout id fun n hn heq => of_decide_eq_false hid ?_
    exact List.mem_map.mpr ⟨n, List.mem_range.mpr hn, heq⟩
  rw [List.filter_flatMap, ← flatMap_filter_of_nil hinside,
    h.tree.filter_commands hpart.tree hwhole.tree, List.flatMap_map]
  exact List.flatMap_congr fun n hn => hin n hn

theorem duplicatesOf {n : Nat} (hlt : n < part.tree.size) (role : Role) :
    Lint.duplicatesOf whole (r n) role = Lint.duplicatesOf part n role := by
  have hbound : Lint.boundAs whole (r n) role = (Lint.boundAs part n role).map (.image r) := by
    rw [Lint.boundAs, h.bindingsOf hpart hwhole hlt, List.filter_map]
    rfl
  have hothers : ∀ b, Lint.otherSites ((Lint.boundAs part n role).map (.image r)) b =
      Lint.otherSites (Lint.boundAs part n role) b := by
    intro b
    unfold Lint.otherSites
    rw [List.filter_map, List.map_map]
    rfl
  unfold Lint.duplicatesOf
  rw [hbound, h.tree.path hpart.tree hwhole.tree hlt]
  dsimp only
  rw [List.length_map, List.map_map]
  simp only [Function.comp_def, Binding.site_image, hothers]
  rfl

/-- For the types, the same repeated bindings are reported. -/
theorem filter_duplicateBinding :
    ((Lint.duplicateBinding whole).filter fun d => d.site.scope ∈ types) =
      Lint.duplicateBinding part := by
  refine h.filter_flatMap_commands hpart hwhole (fun n hn => ?_) fun id hid => ?_
  · have hlt := (Tree.mem_commands.mp hn).2.1
    rw [funext (h.duplicatesOf hpart hwhole hlt)]
    refine List.filter_eq_self.mpr fun d hd => decide_eq_true ?_
    obtain ⟨role, -, hd⟩ := List.mem_flatMap.mp hd
    obtain ⟨b, hb, heq⟩ := Lint.site_of_mem_duplicatesOf hd
    rw [hpart.bindingsOf_eq_filter] at hb
    rw [heq]
    exact h.scope_of_mem_bindings (List.mem_filter.mp hb).1
  · refine List.filter_eq_nil_iff.mpr fun d hd htypes => ?_
    obtain ⟨role, -, hd⟩ := List.mem_flatMap.mp hd
    obtain ⟨b, hb, heq⟩ := Lint.site_of_mem_duplicatesOf hd
    exact h.scope_of_outside hpart hwhole hid hb (heq ▸ of_decide_eq_true htypes)

omit hpart hwhole in
/-- For the types, the same hidden elements are reported. -/
theorem filter_publicFinal :
    ((Lint.publicFinal whole).filter fun d => d.site.scope ∈ types) = Lint.publicFinal part := by
  have hsites : ((whole.bindings.map (·.site)).filter fun site => site.scope ∈ types) =
      part.bindings.map (·.site) := by
    rw [List.filter_map]
    exact (congrArg (List.map (·.site)) h.bindings).trans List.map_map
  unfold Lint.publicFinal
  dsimp only
  rw [← hsites, List.filter_map, List.filter_comm]
  exact congrArg (List.map _) (Lint.filter_distinct _ _ _)

theorem checkType {s : Scope} (hs : s ∈ part.scopes) {n : Nat} (hn : n ∈ s.nodes) :
    Lint.checkType whole (s.image r) (r n) = Lint.checkType part s n := by
  obtain ⟨hpos, hlt⟩ := hpart.node_lt hs hn
  have hbound : Lint.boundType whole s.name (r n) =
      (Lint.boundType part s.name n).map (.image r) := by
    rw [Lint.boundType, h.bindingsOf hpart hwhole hlt, List.find?_map]
    rfl
  unfold Lint.checkType
  rw [Scope.name_image, hbound, h.tree.detail hpos hlt, h.tree.path hpart.tree hwhole.tree hlt]
  cases (part.tree.node n).detail with
  | argument info =>
    obtain ⟨type, -⟩ := info
    cases type <;> cases Lint.boundType part s.name n <;> rfl
  | _ => rfl

theorem checkPlace {b : Binding} (hb : b ∈ part.bindings) :
    Lint.checkPlace whole (b.image r) = Lint.checkPlace part b := by
  obtain ⟨hpos, hlt⟩ := hpart.lt_of_inScope (hpart.sited hb)
  unfold Lint.checkPlace
  rw [show (b.image r).node = r b.node from rfl, h.tree.identity hpos hlt,
    h.tree.path hpart.tree hwhole.tree hlt]
  rfl

/-- For the types, the same missing types and misplaced bindings are reported. -/
theorem filter_argumentType (hsites : ∀ s ∈ whole.scopes, s.site.scope = s.name) :
    ((Lint.argumentType whole).filter fun d => d.site.scope ∈ types) = Lint.argumentType part := by
  unfold Lint.argumentType
  rw [List.filter_append]
  congr 1
  · rw [filter_flatMap_of_site (fun s : Scope => s.name) fun s hs d hd => ?_, h.scopes,
      List.flatMap_map]
    · refine List.flatMap_congr fun s hs => ?_
      rw [show (s.image r).nodes = s.nodes.map r from rfl, List.flatMap_map]
      exact List.flatMap_congr fun n hn => h.checkType hpart hwhole hs hn
    · obtain ⟨n, -, hd⟩ := List.mem_flatMap.mp hd
      exact Lint.scope_of_mem_checkType (hsites s hs) hd
  · rw [filter_flatMap_of_site (fun b : Binding => b.site.scope) fun b _ d hd => ?_, h.bindings,
      List.flatMap_map]
    · exact List.flatMap_congr fun b hb => h.checkPlace hpart hwhole hb
    · rw [Lint.site_of_mem_checkPlace hd]

theorem checkLeaf {n : Nat} (hpos : 0 < n) (hlt : n < part.tree.size) :
    Lint.checkLeaf whole (r n) = Lint.checkLeaf part n := by
  have hbound : whole.bindingFor (r n) .execution =
      (part.bindingFor n .execution).map (.image r) := by
    rw [Environment.bindingFor, h.bindingsOf hpart hwhole hlt, List.find?_map]
    rfl
  unfold Lint.checkLeaf
  dsimp only
  rw [hbound, h.tree.children hpos hlt, h.tree.origin hpos hlt,
    h.tree.path hpart.tree hwhole.tree hlt, List.isEmpty_map, Option.isNone_map]

/-- For the types, the same leaves are reported. -/
theorem filter_unexecuted :
    ((Lint.unexecuted whole).filter fun d => d.site.scope ∈ types) = Lint.unexecuted part := by
  unfold Lint.unexecuted
  rw [List.filterMap_eq_flatMap_toList, List.filterMap_eq_flatMap_toList]
  refine h.filter_flatMap_commands hpart hwhole (fun n hn => ?_) fun id hid => ?_
  · obtain ⟨hpos, hlt, -⟩ := Tree.mem_commands.mp hn
    rw [h.checkLeaf hpart hwhole hpos hlt]
    refine List.filter_eq_self.mpr fun d hd => decide_eq_true ?_
    exact h.origin _ (Lint.site_of_mem_checkLeaf (Option.mem_toList.mp hd))
  · refine List.filter_eq_nil_iff.mpr fun d hd htypes => ?_
    exact h.outside hid _ (Lint.site_of_mem_checkLeaf (Option.mem_toList.mp hd))
      (of_decide_eq_true htypes)

/-- All lints say the same of the types. -/
theorem filter_run (hsites : ∀ s ∈ whole.scopes, s.site.scope = s.name) :
    ((Lint.run Lint.all whole).filter fun d => d.site.scope ∈ types) = Lint.run Lint.all part := by
  rw [Lint.run_all, Lint.run_all, List.filter_append, List.filter_append, List.filter_append,
    h.filter_duplicateBinding hpart hwhole, h.filter_publicFinal,
    h.filter_argumentType hpart hwhole hsites, h.filter_unexecuted hpart hwhole]

end Embeds

end Environment

end CommandTree
