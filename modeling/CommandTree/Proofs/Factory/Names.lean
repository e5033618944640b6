import CommandTree.Compilation
import CommandTree.Proofs.Factory.Writing
import Mathlib.Data.List.Forall2
import Mathlib.Data.List.Nodup
import Mathlib.Data.List.Induction

/-!
# Names that factories are given

Each scope is given a name by the scopes beside it (`givenNames`): its short name, unless another
scope has the same one, and else its qualified name. Short and qualified names may still meet, and
so may qualified names, since different paths can have the same words. So names are given out
exactly if they are distinct (`names_eq_ok`), and the first one that repeats an earlier one is
what is in the way (`names_eq_error`).
-/

namespace CommandTree.Factory

/-! ## The name of a scope -/

/-- The name of a scope's factory beside the other scopes. -/
def nameBeside (suffix : String) (others : List Scope) (scope : Scope) : String :=
  if ∃ other ∈ others, shortName suffix other.name = shortName suffix scope.name then
    qualifiedName suffix scope.name
  else
    shortName suffix scope.name

/-- The names of the factories, in the order of their scopes. -/
def givenNames (suffix : String) (scopes : List Scope) : List String :=
  scopes.mapIdx fun i scope => nameBeside suffix (scopes.eraseIdx i) scope

/-- More than one scope has the short name exactly if one beside the scope has it. -/
theorem chosenName_eq (suffix : String) (before after : List Scope) (scope : Scope) :
    chosenName suffix (before ++ scope :: after) scope =
      nameBeside suffix (before ++ after) scope := by
  have hcount : (before ++ scope :: after).countP
      (fun other => shortName suffix other.name == shortName suffix scope.name) =
      (before ++ after).countP
        (fun other => shortName suffix other.name == shortName suffix scope.name) + 1 := by
    simp only [List.countP_append, List.countP_cons, BEq.rfl, if_true]
    omega
  unfold chosenName nameBeside
  dsimp only
  refine if_congr ?_ rfl rfl
  rw [hcount, gt_iff_lt, Nat.lt_add_left_iff_pos, List.countP_pos_iff]
  simp only [beq_iff_eq]

theorem map_chosenName (suffix : String) (scopes : List Scope) :
    scopes.map (chosenName suffix scopes) = givenNames suffix scopes := by
  refine List.ext_getElem (by simp [givenNames]) fun i hi _ => ?_
  have hlt : i < scopes.length := by simpa using hi
  have hcut : scopes = scopes.take i ++ scopes[i] :: scopes.drop (i + 1) := by simp
  have hname := chosenName_eq suffix (scopes.take i) (scopes.drop (i + 1)) scopes[i]
  rw [← hcut] at hname
  simp only [List.getElem_map, givenNames, List.getElem_mapIdx, List.eraseIdx_eq_take_drop_succ]
  exact hname

/-! ## Distinct names -/

/-- The name at `i` is the first that repeats an earlier one. -/
structure RepeatsAt (ns : List String) (i : Nat) (name : String) : Prop where
  get : ns[i]? = some name
  mem : name ∈ ns.take i
  nodup : (ns.take i).Nodup

/-- Names are distinct, or one of them is the first to repeat. -/
theorem nodup_or_repeatsAt (ns : List String) : ns.Nodup ∨ ∃ i name, RepeatsAt ns i name := by
  induction ns using List.reverseRecOn with
  | nil => exact Or.inl .nil
  | append_singleton ns last ih =>
    rcases ih with hnodup | ⟨i, name, hget, hmem, hnodup⟩
    · by_cases hlast : last ∈ ns
      · exact Or.inr ⟨ns.length, last, by simp, by simpa using hlast, by simpa using hnodup⟩
      · exact Or.inl (List.nodup_append_comm.mp (List.nodup_cons.mpr ⟨hlast, hnodup⟩))
    · obtain ⟨hlt, -⟩ := List.getElem?_eq_some_iff.mp hget
      have htake : (ns ++ [last]).take i = ns.take i :=
        List.take_append_of_le_length (Nat.le_of_lt hlt)
      refine Or.inr ⟨i, name, ?_, ?_, ?_⟩
      · rw [List.getElem?_append_left hlt, hget]
      · rwa [htake]
      · rwa [htake]

/-- Names are given out exactly if they are distinct and not in use. -/
theorem distinctNames_eq_ok {name : Scope → String} {scopes : List Scope} {seen ns : List String} :
    distinctNames name seen scopes = .ok ns ↔
      ns = scopes.map name ∧ (scopes.map name).Nodup ∧ ∀ n ∈ scopes.map name, n ∉ seen := by
  induction scopes generalizing seen ns with
  | nil => simp [distinctNames, eq_comm]
  | cons s scopes ih =>
    rw [distinctNames]
    by_cases hs : name s ∈ seen
    · simp [hs]
    · rw [if_neg hs]
      constructor
      · intro h
        cases hrest : distinctNames name (name s :: seen) scopes with
        | error f => simp [hrest, Except.map] at h
        | ok rest =>
          obtain ⟨rfl, hnodup, hfresh⟩ := ih.mp hrest
          rw [hrest] at h
          cases h
          refine ⟨rfl, List.nodup_cons.mpr ⟨fun hmem => ?_, hnodup⟩, ?_⟩
          · exact hfresh _ hmem (by simp)
          · intro n hn
            rcases List.mem_cons.mp hn with rfl | hn
            · exact hs
            · exact fun hseen => hfresh n hn (by simp [hseen])
      · rintro ⟨rfl, hnodup, hfresh⟩
        obtain ⟨hnot, hnodup⟩ := List.nodup_cons.mp hnodup
        have hrest : distinctNames name (name s :: seen) scopes = .ok (scopes.map name) := by
          refine ih.mpr ⟨rfl, hnodup, fun n hn hseen => ?_⟩
          rcases List.mem_cons.mp hseen with rfl | hseen
          · exact hnot hn
          · exact hfresh n (by simp [hn]) hseen
        rw [hrest]
        rfl

/-- The first name that is in use or repeats an earlier one is refused. -/
theorem distinctNames_append_cons {name : Scope → String} {before : List Scope} {scope : Scope}
    (after : List Scope) {seen : List String} (hnodup : (before.map name).Nodup)
    (hfresh : ∀ n ∈ before.map name, n ∉ seen)
    (hmem : name scope ∈ seen ∨ name scope ∈ before.map name) :
    distinctNames name seen (before ++ scope :: after) =
      .error ⟨scope.site, .nameClash (name scope)⟩ := by
  induction before generalizing seen with
  | nil =>
    have hseen : name scope ∈ seen := by simpa using hmem
    rw [List.nil_append, distinctNames, if_pos hseen]
  | cons first before ih =>
    rw [List.map_cons, List.nodup_cons] at hnodup
    rw [List.map_cons, List.forall_mem_cons] at hfresh
    have hrest : distinctNames name (name first :: seen) (before ++ scope :: after) =
        .error ⟨scope.site, .nameClash (name scope)⟩ := by
      refine ih hnodup.2 (fun n hn hseen => ?_) ?_
      · rcases List.mem_cons.mp hseen with rfl | hseen
        · exact hnodup.1 hn
        · exact hfresh.2 n hn hseen
      · simpa [or_assoc, or_comm, or_left_comm] using hmem
    rw [List.cons_append, distinctNames, if_neg hfresh.1, hrest]
    rfl

/-- There are names exactly if the chosen ones differ. -/
theorem names_eq_ok {suffix : String} {scopes : List Scope} {ns : List String} :
    names suffix scopes = .ok ns ↔
      ns = scopes.map (chosenName suffix scopes) ∧
        (scopes.map (chosenName suffix scopes)).Nodup := by
  rw [names, distinctNames_eq_ok]
  simp

/-- The first name that repeats another is reported at its scope. -/
theorem names_of_repeatsAt {suffix : String} {scopes : List Scope} {i : Nat} {scope : Scope}
    {name : String} (hscope : scopes[i]? = some scope)
    (h : RepeatsAt (scopes.map (chosenName suffix scopes)) i name) :
    names suffix scopes = .error ⟨scope.site, .nameClash name⟩ := by
  obtain ⟨hlt, rfl⟩ := List.getElem?_eq_some_iff.mp hscope
  obtain ⟨hget, hmem, hnodup⟩ := h
  obtain rfl : chosenName suffix scopes scopes[i] = name := by simpa [hlt] using hget
  rw [← List.map_take] at hmem hnodup
  have hcut : scopes = scopes.take i ++ scopes[i] :: scopes.drop (i + 1) := by simp
  have hrefused : distinctNames (chosenName suffix scopes) []
      (scopes.take i ++ scopes[i] :: scopes.drop (i + 1)) =
      .error ⟨scopes[i].site, .nameClash (chosenName suffix scopes scopes[i])⟩ :=
    distinctNames_append_cons _ hnodup (by simp) (Or.inr hmem)
  rwa [← hcut] at hrefused

/-- Names are refused exactly for the first one that repeats, at the scope where it does. -/
theorem names_eq_error {suffix : String} {scopes : List Scope} {f : Fault} :
    names suffix scopes = .error f ↔
      ∃ i scope name, scopes[i]? = some scope ∧
        RepeatsAt (scopes.map (chosenName suffix scopes)) i name ∧
        f = ⟨scope.site, .nameClash name⟩ := by
  constructor
  · intro h
    rcases nodup_or_repeatsAt (scopes.map (chosenName suffix scopes)) with
      hnodup | ⟨i, name, hrepeats⟩
    · rw [names_eq_ok.mpr ⟨rfl, hnodup⟩] at h
      cases h
    · have hget := hrepeats.get
      rw [List.getElem?_map] at hget
      obtain ⟨scope, hscope, -⟩ := Option.map_eq_some_iff.mp hget
      rw [names_of_repeatsAt hscope hrepeats] at h
      exact ⟨i, scope, name, hscope, hrepeats, (Except.error.inj h).symm⟩
  · rintro ⟨i, scope, name, hscope, hrepeats, rfl⟩
    exact names_of_repeatsAt hscope hrepeats

-- the first two scopes share a short name, and the third has the qualified name of the first
example : names "" (["a::B", "c::B", "A_B"].map fun type => .ofSite (.ofType type)) =
    .error ⟨.ofType "A_B", .nameClash "a_b"⟩ := by
  decide +kernel

/-! ## One factory for each scope -/

theorem bind_eq_ok {α β : Type} {x : Except Fault α} {k : α → Except Fault β} {b : β} :
    x >>= k = .ok b ↔ ∃ a, x = .ok a ∧ k a = .ok b := by
  cases x <;> simp [bind, Except.bind]

theorem mapM_eq_ok {α β : Type} {f : α → Except Fault β} {as : List α} {bs : List β} :
    as.mapM f = .ok bs ↔ List.Forall₂ (fun a b => f a = .ok b) as bs := by
  induction as generalizing bs with
  | nil => simp [pure, Except.pure, eq_comm]
  | cons a as ih =>
    simp only [List.mapM_cons, bind_eq_ok, ih, List.forall₂_cons_left_iff]
    constructor
    · rintro ⟨b, hb, rest, hrest, h⟩
      exact ⟨b, rest, hb, hrest, (Except.ok.inj h).symm⟩
    · rintro ⟨b, rest, hb, hrest, rfl⟩
      exact ⟨b, hb, rest, hrest, rfl⟩

/-- A factory has the name that it is given, and the scope that it is for. -/
theorem name_of_ofScope {env : Environment} {scope : Scope} {name : String} {f : Factory}
    (h : ofScope env scope name = .ok f) : f.name = name ∧ f.scope = scope.name := by
  obtain ⟨body, -, hf⟩ := bind_eq_ok.mp h
  cases hf
  exact ⟨rfl, rfl⟩

/-- A factory has the name that its scope was paired with. -/
theorem forall₂_ofScope_zip {env : Environment} {scopes : List Scope} {ns : List String}
    {fs : List Factory} (hlength : ns.length = scopes.length) :
    List.Forall₂ (fun p f => ofScope env p.1 p.2 = .ok f) (scopes.zip ns) fs ↔
      fs.map (·.name) = ns ∧
        List.Forall₂ (fun scope f => ofScope env scope f.name = .ok f) scopes fs := by
  induction scopes generalizing ns fs with
  | nil =>
    obtain rfl := List.length_eq_zero_iff.mp hlength
    simp
  | cons scope scopes ih =>
    obtain ⟨name, ns, rfl⟩ := List.exists_cons_of_length_eq_add_one hlength
    rw [List.zip_cons_cons, List.forall₂_cons_left_iff, List.forall₂_cons_left_iff]
    have hrest := fun fs => @ih ns fs (by simpa using hlength)
    constructor
    · rintro ⟨f, fs, hf, hfs, rfl⟩
      obtain ⟨hnames, hall⟩ := (hrest fs).mp hfs
      obtain ⟨hname, -⟩ := name_of_ofScope hf
      exact ⟨by rw [List.map_cons, hname, hnames], f, fs, hname ▸ hf, hall, rfl⟩
    · rintro ⟨hnames, f, fs, hf, hfs, rfl⟩
      obtain ⟨rfl, rfl⟩ := List.cons.inj hnames
      exact ⟨f, fs, hf, (hrest fs).mpr ⟨rfl, hfs⟩, rfl⟩

/-- Factories are generated exactly if names are given out and each scope can be built under its
own. -/
theorem ofEnvironment_eq_ok_iff_forall₂ {env : Environment} {suffix : String} {fs : List Factory} :
    ofEnvironment suffix env = .ok fs ↔
      names suffix env.scopes = .ok (fs.map (·.name)) ∧
        List.Forall₂ (fun scope f => ofScope env scope f.name = .ok f) env.scopes fs := by
  have hlength : ∀ {ns}, names suffix env.scopes = .ok ns → ns.length = env.scopes.length := by
    intro ns hns
    rw [(names_eq_ok.mp hns).1, List.length_map]
  unfold ofEnvironment
  rw [bind_eq_ok]
  constructor
  · rintro ⟨ns, hns, h⟩
    obtain ⟨rfl, hall⟩ := (forall₂_ofScope_zip (hlength hns)).mp (mapM_eq_ok.mp h)
    exact ⟨hns, hall⟩
  · rintro ⟨hns, hall⟩
    exact ⟨_, hns, mapM_eq_ok.mpr ((forall₂_ofScope_zip (hlength hns)).mpr ⟨rfl, hall⟩)⟩

/-- Source that is generated is that of the factories. -/
theorem generate_eq_ok {env : Environment} {settings : GenerationSettings} {text : String} :
    env.generate settings = .ok text ↔
      ∃ fs, ofEnvironment settings.suffix env = .ok fs ∧ text = file settings fs := by
  unfold Environment.generate
  cases ofEnvironment settings.suffix env <;> simp [Except.map, eq_comm]

/-- Nothing is generated where names clash. -/
theorem generate_of_names_error {env : Environment} {settings : GenerationSettings} {f : Fault}
    (h : names settings.suffix env.scopes = .error f) : env.generate settings = .error f := by
  unfold Environment.generate ofEnvironment
  rw [h]
  rfl

/-- Names are given out exactly if no two scopes are given the same one, and otherwise the first
that repeats is what is in the way. So generated source is what is written for one factory of each
scope, under names that are distinct. -/
theorem names_collision_free (settings : GenerationSettings) (env : Environment) :
    (∀ ns, names settings.suffix env.scopes = .ok ns ↔
      ns = givenNames settings.suffix env.scopes ∧ ns.Nodup) ∧
    (∀ f, names settings.suffix env.scopes = .error f ↔
      ∃ i scope name, env.scopes[i]? = some scope ∧
        RepeatsAt (givenNames settings.suffix env.scopes) i name ∧
        f = ⟨scope.site, .nameClash name⟩) ∧
    (∀ f, names settings.suffix env.scopes = .error f → env.generate settings = .error f) ∧
    ∀ text, env.generate settings = .ok text ↔
      ∃ fs, Written settings fs text ∧
        fs.map (·.name) = givenNames settings.suffix env.scopes ∧ (fs.map (·.name)).Nodup ∧
        List.Forall₂ (fun scope f => f.scope = scope.name ∧ ofScope env scope f.name = .ok f)
          env.scopes fs := by
  have hok : ∀ ns, names settings.suffix env.scopes = .ok ns ↔
      ns = givenNames settings.suffix env.scopes ∧ ns.Nodup := by
    intro ns
    rw [names_eq_ok, map_chosenName]
    exact and_congr_right fun h => by rw [h]
  refine ⟨hok, fun f => ?_, fun f => generate_of_names_error, fun text => ?_⟩
  · rw [names_eq_error, map_chosenName]
  · have hscope : ∀ scope f, ofScope env scope f.name = .ok f ↔
        f.scope = scope.name ∧ ofScope env scope f.name = .ok f := fun scope f =>
      ⟨fun h => ⟨(name_of_ofScope h).2, h⟩, And.right⟩
    simp only [generate_eq_ok, written_iff, ofEnvironment_eq_ok_iff_forall₂, hok, ← hscope]
    exact exists_congr fun fs => by tauto

end CommandTree.Factory
