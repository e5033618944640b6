import CommandTree.Diagnostic.Render
import CommandTree.Proofs.Acceptance
import CommandTree.Proofs.Namespace.Spans

/-!
# The diagnostics of a round can be shown

A diagnostic is shown with the bytes of a namespace underlined, which takes a span that cuts no
character in two (`Snippet.Sliceable`). Each diagnostic of assembling points into the very namespace
that it shows (`Diagnostic.PointsInto`): a fault of reading at the text that was read, a conflict
or an unresolved binding at the word of a token. The lints show no namespace. So everything that a
round reports can be shown (`compile_shown`).
-/

namespace CommandTree

open Namespace (Fault Memo Token aliasLast tokenize)
open Text (Span byteLength splitAtByte? splitAtByte?_append)

/-! ## Slices of a text -/

theorem byteLength_eq_utf8ByteSize (cs : List Char) :
    byteLength cs = (String.ofList cs).utf8ByteSize := by
  induction cs with
  | nil => rfl
  | cons c cs ih => rw [byteLength, ih, String.ofList_cons, String.utf8ByteSize_append,
      String.utf8ByteSize_singleton]

/-- The bytes behind some of the characters of a text are no bytes inside a character. -/
theorem isValid_of_prefix {text : String} {cs : List Char} (h : cs <+: text.toList) :
    String.Pos.Raw.IsValid text ⟨byteLength cs⟩ := by
  obtain ⟨after, hafter⟩ := h
  refine String.Pos.Raw.isValid_iff_exists_append.mpr
    ⟨String.ofList cs, String.ofList after, ?_, ?_⟩
  · rw [← String.ofList_append, hafter, String.ofList_toList]
  · rw [byteLength_eq_utf8ByteSize]
    rfl

/-- The span can be cut out of the text: it is in order, ends inside the text, and has no end inside
a character. -/
structure Snippet.Sliceable (s : Snippet) : Prop where
  start_le_stop : s.span.start ≤ s.span.stop
  stop_le_size : s.span.stop ≤ s.text.utf8ByteSize
  start_valid : String.Pos.Raw.IsValid s.text ⟨s.span.start⟩
  stop_valid : String.Pos.Raw.IsValid s.text ⟨s.span.stop⟩

/-- A span within a text cuts it at characters. -/
theorem Text.Span.Within.sliceable {text : String} {span : Span} (h : span.Within text) :
    Snippet.Sliceable ⟨text, span⟩ := by
  obtain ⟨before, inside, hprefix, rfl⟩ := h
  have hstop := isValid_of_prefix hprefix
  rw [Text.byteLength_append] at hstop
  exact ⟨Nat.le_add_right _ _, hstop.le_rawEndPos,
    isValid_of_prefix ((List.prefix_append _ _).trans hprefix), hstop⟩

/-- A part of the text is cut out of it. -/
theorem Snippet.cut?_eq {s : Snippet} {before inside : List Char}
    (hpart : before ++ inside <+: s.text.toList)
    (hspan : s.span = ⟨byteLength before, byteLength before + byteLength inside⟩) :
    s.cut? = some (before, inside) := by
  obtain ⟨after, hafter⟩ := hpart
  have hsize : byteLength s.text.toList =
      byteLength before + byteLength inside + byteLength after := by
    simp [← hafter, Nat.add_assoc]
  have hstart : min s.span.start (byteLength s.text.toList) = byteLength before := by
    rw [hspan, hsize]
    dsimp only
    omega
  have hstop : min (max s.span.stop (byteLength before)) (byteLength s.text.toList) -
      byteLength before = byteLength inside := by
    rw [hspan, hsize]
    dsimp only
    omega
  unfold cut?
  dsimp only
  rw [hstart, hstop, ← hafter, List.append_assoc, splitAtByte?_append]
  dsimp only
  rw [splitAtByte?_append]
  rfl

/-- What lies within a text can be underlined. -/
theorem Snippet.exists_render {s : Snippet} (h : s.span.Within s.text) :
    ∃ text, s.render? = some text := by
  obtain ⟨before, inside, hpart, hspan⟩ := h
  exact ⟨_, by rw [render?, cut?_eq hpart hspan]; rfl⟩

namespace Diagnostic

/-- The diagnostic points into the namespace that it shows, if it shows one. -/
def PointsInto (d : Diagnostic) : Prop :=
  ∀ s ∈ d.snippet, s.span.Within s.text

theorem pointsInto_of_none {d : Diagnostic} (h : d.snippet = none) : d.PointsInto := by
  simp [PointsInto, h]

theorem pointsInto_withSnippet {d : Diagnostic} {text : String} {span : Span}
    (h : span.Within text) : (d.withSnippet text span).PointsInto := by
  rintro s ⟨⟩
  exact h

/-- A fault is shown within the text that was read. -/
theorem pointsInto_ofFault {site : Element} {text : String} {fault : Fault}
    (h : fault.Within text) : (ofFault site text fault).PointsInto := by
  unfold ofFault
  dsimp only
  split
  · rename_i span hspan
    exact pointsInto_withSnippet (h span hspan)
  · exact pointsInto_of_none rfl

/-- Diagnostics that point into their texts are rendered. -/
theorem exists_renderAll {ds : List Diagnostic} (h : ∀ d ∈ ds, d.PointsInto) :
    ∃ text, renderAll? ds = some text := by
  have hrender : ∀ d ∈ ds, ∃ text, d.render? = some text := by
    intro d hd
    unfold render? renderSnippet?
    cases hs : d.snippet with
    | none => exact ⟨_, rfl⟩
    | some s =>
      obtain ⟨text, htext⟩ := Snippet.exists_render (h d hd s hs)
      exact ⟨_, by dsimp only; rw [htext]; rfl⟩
  obtain ⟨texts, htexts⟩ : ∃ texts, ds.mapM render? = some texts := by
    clear h
    induction ds with
    | nil => exact ⟨[], rfl⟩
    | cons d rest ih =>
      rw [List.forall_mem_cons] at hrender
      obtain ⟨⟨text, htext⟩, hrest⟩ := hrender
      obtain ⟨texts, htexts⟩ := ih hrest
      exact ⟨text :: texts, by simp [List.mapM_cons, htext, htexts]⟩
  exact ⟨_, by rw [renderAll?, htexts]; rfl⟩

end Diagnostic

/-! ## Routes -/

theorem Namespace.map_span_aliasLast (aliases : List String) : ∀ tokens : List Token,
    (aliasLast aliases tokens).map (·.span) = tokens.map (·.span)
  | [] => rfl
  | [_] => rfl
  | first :: second :: rest => by
    rw [Namespace.aliasLast_cons_cons, List.map_cons, map_span_aliasLast]
    rfl

theorem Route.map_span_nameArgument : ∀ tokens : List Token,
    (nameArgument tokens).map (·.span) = tokens.map (·.span)
  | [] => rfl
  | [_] => rfl
  | first :: second :: rest => by
    rw [nameArgument_cons_cons, List.map_cons, map_span_nameArgument]
    rfl

/-- The tokens of a route span parts of its text. -/
theorem Directive.Reads.within {directive : Directive} {route : Route}
    (h : directive.Reads route) {token : Token} (ht : token ∈ route.tokens) :
    token.span.Within route.text := by
  have hspans : ∀ {text : String} {read tokens : List Token}, tokenize text = .ok read →
      tokens.map (·.span) = read.map (·.span) → token ∈ tokens → token.span.Within text := by
    intro text read tokens hread heq ht
    have hmem : token.span ∈ read.map (·.span) := heq ▸ List.mem_map_of_mem ht
    obtain ⟨token', ht', hspan⟩ := List.mem_map.mp hmem
    exact hspan ▸ Namespace.within_of_tokenize hread ht'
  cases h with
  | command h => exact hspans h rfl ht
  | bind h => exact hspans h rfl ht
  | literal _ h _ _ => exact hspans h (Namespace.map_span_aliasLast _ _) ht
  | argument _ h => exact hspans h (Route.map_span_nameArgument _) ht

/-- The faults of a directive are within the text that was read. -/
theorem Directive.Faulty.within {directive : Directive} {text : String} {faults : List Fault}
    (h : directive.Faulty text faults) {fault : Fault} (hf : fault ∈ faults) :
    fault.Within text := by
  cases h with
  | command h | bind h | argument _ h => exact Namespace.within_of_tokenize_error h hf
  | literalSegments h | argumentSegments h =>
    exact Namespace.within_of_compoundSegments ((Namespace.joinSegments_eq_error.mp h).1 ▸ hf)
  | literal _ h => exact Namespace.within_of_readAliased h hf

/-- What is wrong with a namespace is shown in the text that was read. -/
theorem readRoute_pointsInto {site : Element} {directive : Directive} {memo : Memo}
    (hm : memo.Sound) {ds : List Diagnostic}
    (h : (readRoute site directive memo).1 = .error ds) : ∀ d ∈ ds, d.PointsInto := by
  rcases readRoute_eq_error hm h with
    ⟨text, faults, hfaulty, rfl⟩ | ⟨text, tokens, last, _, hread, hlast, rfl⟩
  · exact List.forall_mem_map.mpr fun fault hf =>
      Diagnostic.pointsInto_ofFault (hfaulty.within hf)
  · intro d hd
    rw [List.mem_singleton.mp hd]
    exact Diagnostic.pointsInto_withSnippet
      (Namespace.within_of_tokenize hread (List.mem_of_getLast? hlast))

/-! ## Assembling -/

namespace Environment

/-- All diagnostics so far point into the namespaces that they show. -/
def PointsInto (env : Environment) : Prop :=
  ∀ d ∈ env.diagnostics, d.PointsInto

variable {env : Environment} {site : Element} {text : String}

theorem PointsInto.report (h : env.PointsInto) {d : Diagnostic} (hd : d.PointsInto) :
    (env.report d).PointsInto := by
  intro d' hd'
  rcases List.mem_append.mp hd' with hd' | hd'
  · exact h d' hd'
  · rw [List.mem_singleton.mp hd']
    exact hd

theorem PointsInto.reportAll (h : env.PointsInto) {ds : List Diagnostic}
    (hds : ∀ d ∈ ds, d.PointsInto) : (env.reportAll ds).PointsInto := by
  intro d hd
  rcases List.mem_append.mp hd with hd | hd
  · exact h d hd
  · exact hds d hd

theorem PointsInto.reportConflict (h : env.PointsInto) {token : Token}
    (ht : token.span.Within text) (message : String) :
    (env.reportConflict site text token message).PointsInto :=
  h.report (Diagnostic.pointsInto_withSnippet ht)

theorem PointsInto.meet (h : env.PointsInto) {token : Token} (ht : token.span.Within text)
    (detail : Detail) (existing : Nat) :
    (env.meet site text token detail existing).1.PointsInto := by
  rcases env.meet_cases site text token detail existing with
    ⟨-, message, heq⟩ | ⟨-, ⟨-, heq⟩ | ⟨info, -, ⟨message, heq⟩ | ⟨-, heq⟩⟩⟩
  · rw [heq]
    exact h.reportConflict ht message
  · rw [heq]
    exact h
  · rw [heq]
    exact @PointsInto.reportConflict { env with tree := _ } site text h token ht message
  · rw [heq]
    exact h

theorem PointsInto.reach (h : env.PointsInto) {token : Token} (ht : token.span.Within text)
    (parent : Nat) (detail : Detail) :
    (env.reach site text parent token detail).1.PointsInto := by
  unfold Environment.reach
  split
  · exact h.meet ht detail _
  · exact h

theorem PointsInto.foldl_addAlias (h : env.PointsInto) {token : Token}
    (ht : token.span.Within text) (node : Nat) (words : List String) :
    (words.foldl (addAlias site text token node) env).PointsInto := by
  induction words generalizing env with
  | nil => exact h
  | cons word rest ih =>
    refine ih ?_
    unfold addAlias
    rcases env.tree.addAlias node word with ⟨tree, conflict | _⟩
    · exact @PointsInto.reportConflict { env with tree } site text h token ht _
    · exact h

/-- A walk reports at the words of its tokens. -/
theorem PointsInto.walk {info : Option ArgumentInfo} :
    ∀ {tokens : List Token} (_ : ∀ token ∈ tokens, token.span.Within text) (parent : Nat)
      {env : Environment} (_ : env.PointsInto),
      (walk site text info tokens parent env).1.PointsInto
  | [], _, _, _, h => h
  | token :: rest, htokens, parent, env, h => by
    rw [List.forall_mem_cons] at htokens
    have hreach := @PointsInto.reach env site text h token htokens.1 parent
      (detailOf info token rest)
    rw [Environment.walk]
    cases hr : env.reach site text parent token (detailOf info token rest) with
    | mk env₁ result =>
      rw [hr] at hreach
      cases result with
      | none => exact hreach
      | some node =>
        exact PointsInto.walk htokens.2 node (hreach.foldl_addAlias htokens.1 node token.aliases)

/-- Merging a structural declaration reports within its text. -/
theorem PointsInto.place (henv : env.WellFormed) (h : env.PointsInto) (d : Declaration) :
    (env.place d).PointsInto := by
  unfold Environment.place
  cases hr : readRoute d.element d.directive env.memo with
  | mk result memo =>
    cases result with
    | error ds => exact h.reportAll (readRoute_pointsInto henv.memo (congrArg Prod.fst hr))
    | ok route =>
      have hreads := readRoute_reads henv.memo (congrArg Prod.fst hr)
      exact PointsInto.walk (fun token ht => hreads.within ht) 0 h

/-- A binding that leads nowhere is reported at one of its tokens. -/
theorem mem_of_resolve_error : ∀ {tokens : List Token} {node : Nat} {token : Token},
    env.resolve site tokens node = .error token → token ∈ tokens
  | [], _, _, h => by cases h
  | first :: rest, node, token, h => by
    rw [resolve] at h
    split at h
    · exact List.mem_cons_of_mem _ (mem_of_resolve_error h)
    · cases h
      exact List.mem_cons_self

/-- Binding an element reports within the text of its path. -/
theorem PointsInto.bindElement (henv : env.WellFormed) (h : env.PointsInto) (names : TypeNames)
    (d : Declaration) : (bindElement names env d).PointsInto := by
  unfold Environment.bindElement
  split
  · exact h.report (Diagnostic.pointsInto_of_none rfl)
  · cases hr : readRoute d.element d.directive env.memo with
    | mk result memo =>
      cases result with
      | error ds => exact h.reportAll (readRoute_pointsInto henv.memo (congrArg Prod.fst hr))
      | ok route =>
        have hreads := readRoute_reads henv.memo (congrArg Prod.fst hr)
        dsimp only
        split
        · exact h
        · rename_i token htoken
          exact h.report (Diagnostic.pointsInto_withSnippet
            (hreads.within (mem_of_resolve_error htoken)))

/-- What a call reports points into the texts that were read. -/
theorem pointsInto_ofDeclarations (settings : Settings) (ds : List Declaration) :
    (ofDeclarations settings ds).PointsInto := by
  refine (declare_induction (P := fun env => env.WellFormed ∧ env.PointsInto) ?_ ?_ .empty
    ⟨.empty, ?_⟩ ds).2
  · exact fun henv h d => ⟨(place_steps henv d).wellFormed henv, h.2.place henv d⟩
  · exact fun h d => ⟨(bindElement_steps _ h.1 d).wellFormed h.1, h.2.bindElement h.1 _ d⟩
  · simp [PointsInto, Environment.empty]

end Environment

/-! ## Lints and rounds -/

theorem Lint.snippet_of_mem_checkType {env : Environment} {scope : Scope} {node : Nat}
    {d : Diagnostic} (h : d ∈ checkType env scope node) : d.snippet = none := by
  unfold checkType at h
  split at h
  · split at h
    · rw [List.mem_singleton.mp h]
      rfl
    · rw [List.mem_singleton.mp h]
      rfl
    · cases h
  · cases h

/-- The lints show no namespace. -/
theorem Lint.snippet_of_mem_run {env : Environment} {d : Diagnostic} (h : d ∈ run all env) :
    d.snippet = none := by
  rw [run_all, List.mem_append, List.mem_append, List.mem_append] at h
  rcases h with h | h | h | h
  · simp only [duplicateBinding, List.mem_flatMap, duplicatesOf] at h
    obtain ⟨node, -, role, -, h⟩ := h
    split at h
    · cases h
    · obtain ⟨b, -, rfl⟩ := List.mem_map.mp h
      rfl
  · obtain ⟨site, -, rfl⟩ := List.mem_map.mp h
    rfl
  · rcases List.mem_append.mp h with h | h
    · obtain ⟨scope, -, h⟩ := List.mem_flatMap.mp h
      obtain ⟨node, -, h⟩ := List.mem_flatMap.mp h
      exact snippet_of_mem_checkType h
    · obtain ⟨b, -, h⟩ := List.mem_flatMap.mp h
      unfold checkPlace at h
      split at h
      · rw [List.mem_singleton.mp h]
        rfl
      · cases h
  · obtain ⟨node, -, h⟩ := List.mem_filterMap.mp h
    unfold checkLeaf at h
    dsimp only at h
    split at h
    · obtain ⟨site, -, rfl⟩ := Option.map_eq_some_iff.mp h
      rfl
    · cases h

/-- What a round reports: the warnings with its source, or the diagnostics it fails with. -/
def reportOf : Except (List Diagnostic) Output → List Diagnostic
  | .ok out => out.warnings
  | .error diagnostics => diagnostics

/-- What a round reports points into the texts that were read. -/
theorem pointsInto_of_mem_report {settings : Settings} {ds : List Declaration} {d : Diagnostic}
    (h : d ∈ reportOf (compile settings ds)) : d.PointsInto := by
  have hall : ∀ d ∈ (Environment.ofDeclarations settings ds).allDiagnostics, d.PointsInto := by
    intro d hd
    rcases List.mem_append.mp hd with hd | hd
    · exact Environment.pointsInto_ofDeclarations settings ds d hd
    · exact Diagnostic.pointsInto_of_none (Lint.snippet_of_mem_run hd)
  cases hc : compile settings ds with
  | ok out =>
    rw [hc, reportOf, (compile_eq_ok hc).2.2] at h
    exact hall d h
  | error diagnostics =>
    rw [hc, reportOf] at h
    rcases compile_eq_error hc with ⟨-, rfl⟩ | ⟨-, fault, -, rfl⟩
    · exact hall d h
    · rcases List.mem_append.mp h with h | h
      · exact hall d h
      · rw [List.mem_singleton.mp h]
        exact Diagnostic.pointsInto_of_none rfl

/-- Each diagnostic of a round points at bytes that can be cut out of the namespace it shows, so
that all of them can be shown. -/
theorem compile_shown (settings : Settings) (ds : List Declaration) :
    (∀ d ∈ reportOf (compile settings ds), ∀ s ∈ d.snippet, s.Sliceable) ∧
      ∃ text, Diagnostic.renderAll? (reportOf (compile settings ds)) = some text :=
  ⟨fun _ hd s hs => (pointsInto_of_mem_report hd s hs).sliceable,
    Diagnostic.exists_renderAll fun _ hd => pointsInto_of_mem_report hd⟩

/-- A bracket that is not closed, and a segment of two words, both behind characters of two
bytes. -/
def wideDeclarations : List Declaration :=
  [⟨.ofType "Cases", .command "größe <ä"⟩, ⟨.ofType "Cases", .literal ["ü", "a b"] []⟩]

theorem wideDeclarations_compile_shown :
    (reportOf (compile {} wideDeclarations)).map (·.snippet) =
        [some ⟨"größe <ä", ⟨8, 11⟩⟩, some ⟨"ü a b", ⟨3, 6⟩⟩] ∧
      Snippet.Sliceable ⟨"größe <ä", ⟨8, 11⟩⟩ ∧ Snippet.Sliceable ⟨"ü a b", ⟨3, 6⟩⟩ ∧
      ∃ text, Diagnostic.renderAll? (reportOf (compile {} wideDeclarations)) = some text := by
  have hsnippets : (reportOf (compile {} wideDeclarations)).map (·.snippet) =
      [some ⟨"größe <ä", ⟨8, 11⟩⟩, some ⟨"ü a b", ⟨3, 6⟩⟩] := by decide +kernel
  obtain ⟨hslices, hrender⟩ := compile_shown {} wideDeclarations
  have hslice : ∀ s, some s ∈ (reportOf (compile {} wideDeclarations)).map (·.snippet) →
      s.Sliceable := by
    intro s hs
    obtain ⟨d, hd, hsnippet⟩ := List.mem_map.mp hs
    exact hslices d hd s hsnippet
  exact ⟨hsnippets, hslice _ (by simp [hsnippets]), hslice _ (by simp [hsnippets]), hrender⟩

end CommandTree
