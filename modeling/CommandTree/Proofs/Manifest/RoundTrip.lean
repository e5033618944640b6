import CommandTree.Manifest.Writer
import CommandTree.Proofs.Json.Reading

/-!
# Written manifests are loaded back

The entries of a written record fill its fields one after another (`Fills`), and what is filled is
decoded (`Fills.decodeEntries`). So each form reads what its writer writes, from the strings up to
the declarations, as long as there is room for the arrays and objects in it. Together with
`Doc.read_text` this makes a manifest the one that its text is loaded as (`load_write`).
-/

namespace CommandTree.Manifest

open Json (Doc Value)

/-! ## Records -/

section Records

variable {σ α : Type} {room : Nat}

theorem keyText_ofString (name : String) : (Doc.ofString name).keyText = .ok name := rfl

/-- Entries that fill fields of a record. Each names a field that was not set before, and its value
is decoded and put into the record. -/
inductive Fills (room : Nat) (fields : List (Field σ)) : σ → List (String × Value) → σ → Prop
  | nil {s : σ} : Fills room fields s [] s
  | cons {β : Type} {name : String} {value : Value} {entries : List (String × Value)}
      {isSet : σ → Bool} {decode : Nat → Doc → Except Problem β} {put : σ → β → σ} {b : β}
      {s last : σ}
      (hfield : fields.find? (·.name == name) =
        some ⟨name, isSet, fun room doc s => (decode room doc).map (put s)⟩)
      (hunset : isSet s = false) (hvalue : decode room value.doc = .ok b)
      (hentries : Fills room fields (put s b) entries last) :
      Fills room fields s ((name, value) :: entries) last

/-- Entries that fill the fields in turn are decoded. -/
theorem Fills.decodeEntries {fields : List (Field σ)} {s last : σ}
    {entries : List (String × Value)} (h : Fills room fields s entries last) :
    decodeEntries room fields (Value.entryDocs entries) s = .ok last := by
  induction h with
  | nil => rfl
  | @cons _ name value entries isSet decode put b s last hfield hunset hvalue _ ih =>
    simp [Value.entryDocs, Manifest.decodeEntries, keyText_ofString, ofFlaw, hfield, hunset, hvalue,
      bind, Except.bind, Except.map, ih]

theorem Form.ofEntries_of_fills {form : Form σ α} {entries : List (String × Value)} {s : σ} {a : α}
    (hfills : Fills room form.fields form.start entries s)
    (hfinish : form.finish form.lacks s = .ok a) :
    form.ofEntries room (Value.entryDocs entries) none = .ok a := by
  simp [Form.ofEntries, hfills.decodeEntries, decodeEnding, Doc.skipEnding, ofFlaw, bind,
    Except.bind, hfinish]

/-- An object whose entries fill a form is decoded. -/
theorem Form.decode_of_fills {form : Form σ α} {entries : List (String × Value)} {s : σ} {a : α}
    (hfills : Fills room form.fields form.start entries s)
    (hfinish : form.finish form.lacks s = .ok a) :
    form.decode (room + 1) (Value.object entries).doc = .ok a := by
  rw [Value.doc, Form.decode, enter]
  exact Form.ofEntries_of_fills hfills hfinish

theorem decodeAll_itemDocs {item : Doc → Except Problem α} {write : α → Value}
    (hitem : ∀ a, item (write a).doc = .ok a) (as : List α) :
    decodeAll item (Value.itemDocs (as.map write)) = .ok as := by
  induction as with
  | nil => rfl
  | cons a as ih =>
    simp [Value.itemDocs, decodeAll, hitem, ih, bind, Except.bind, pure, Except.pure]

/-- An array is decoded if its members are. -/
theorem decodeList_array {item : Nat → Doc → Except Problem α} {write : α → Value}
    (hitem : ∀ a, item room (write a).doc = .ok a) (as : List α) :
    decodeList (room + 1) item (Value.array (as.map write)).doc = .ok as := by
  simp [Value.doc, decodeList, enter, decodeAll_itemDocs hitem, decodeEnding, Doc.skipEnding,
    ofFlaw, bind, Except.bind, pure, Except.pure]

end Records

/-! ## Settings -/

theorem decode_generationValue (room : Nat) (s : GenerationSettings) :
    generationForm.decode (room + 1) (generationValue s).doc = .ok s :=
  Form.decode_of_fills (.cons rfl rfl rfl (.cons rfl rfl rfl (.cons rfl rfl rfl .nil))) rfl

theorem decode_typeNamesValue (room : Nat) (t : TypeNames) :
    typeNamesForm.decode (room + 1) (typeNamesValue t).doc = .ok t :=
  Form.decode_of_fills
    (.cons rfl rfl rfl (.cons rfl rfl rfl (.cons rfl rfl rfl (.cons rfl rfl rfl .nil)))) rfl

/-- Settings are read back. -/
theorem decode_settingsValue (room : Nat) (s : Settings) :
    settingsForm.decode (room + 2) (settingsValue s).doc = .ok s := by
  have hgeneration := decode_generationValue room s.generation
  have htypes := decode_typeNamesValue room s.types
  exact Form.decode_of_fills (.cons rfl rfl hgeneration (.cons rfl rfl htypes .nil)) rfl

/-! ## Elements -/

theorem decodeVariant_elementKindValue (room : Nat) (kind : ElementKind) :
    decodeVariant elementKinds (room + 2) (elementKindValue kind).doc = .ok kind := by
  cases kind <;> rfl

theorem decodeVariant_visibilityValue (room : Nat) (visibility : Visibility) :
    decodeVariant visibilities room (visibilityValue visibility).doc = .ok visibility := by
  cases visibility <;> rfl

theorem decodeVariant_mutabilityValue (room : Nat) (mutability : Mutability) :
    decodeVariant mutabilities room (mutabilityValue mutability).doc = .ok mutability := by
  cases mutability <;> rfl

theorem decode_elementValue (room : Nat) (e : Element) :
    elementForm.decode (room + 3) (elementValue e).doc = .ok e := by
  obtain ⟨owner, name, kind, visibility, mutability⟩ := e
  have hkind := decodeVariant_elementKindValue room kind
  have hvisibility := decodeVariant_visibilityValue (room + 2) visibility
  have hmutability := decodeVariant_mutabilityValue (room + 2) mutability
  have hfields (owner : Option (Option String)) :
      Fills (room + 2) elementForm.fields { owner }
        [("name", .string name), ("kind", elementKindValue kind),
          ("visibility", visibilityValue visibility), ("mutability", mutabilityValue mutability)]
        ⟨owner, some name, some kind, some visibility, some mutability⟩ :=
    .cons rfl rfl rfl (.cons rfl rfl hkind
      (.cons rfl rfl hvisibility (.cons rfl rfl hmutability .nil)))
  cases owner with
  | none => exact Form.decode_of_fills (hfields none) rfl
  | some owner =>
    exact Form.decode_of_fills (.cons rfl rfl rfl (hfields (some (some owner)))) rfl

/-! ## Directives -/

theorem decodeStrings_ofStrings (strings : List String) :
    decodeStrings (Value.ofStrings strings).doc = .ok strings :=
  decodeAll_itemDocs (fun _ => rfl) strings

theorem check_string (room : Nat) (s : String) : (Value.string s).doc.check room = .ok () := rfl

theorem check_ofStrings (room : Nat) (strings : List String) :
    (Value.ofStrings strings).doc.check (room + 1) = .ok () := by
  have hitems : Doc.checkItems room (Value.itemDocs (strings.map .string)) = .ok () := by
    induction strings with
    | nil => rfl
    | cons s strings ih =>
      rw [List.map_cons, Value.itemDocs, Doc.checkItems]
      exact ih
  simp [Value.ofStrings, Value.doc, Doc.check, hitems, Doc.skipEnding, bind, Except.bind]

/-- Entries that are kept for later are kept as they are. -/
theorem keepEntries_entryDocs {room : Nat} {entries : List (String × Value)}
    (h : ∀ entry ∈ entries, entry.1 ≠ "kind" ∧ entry.2.doc.check room = .ok ())
    (form? : Option DirectiveForm) :
    keepEntries room (Value.entryDocs entries) form? =
      .ok (form?, Value.entryDocs entries) := by
  induction entries with
  | nil => rfl
  | cons entry entries ih =>
    obtain ⟨name, value⟩ := entry
    rw [List.forall_mem_cons] at h
    obtain ⟨⟨hname, hcheck⟩, hentries⟩ := h
    simp [Value.entryDocs, keepEntries, keyText_ofString, ofFlaw, hname, hcheck, ih hentries,
      bind, Except.bind, pure, Except.pure]

/-- A directive whose entries fill the form of its kind is decoded. -/
theorem decodeDirective_of_fills {room : Nat} {kind : String} {form : DirectiveForm}
    {entries : List (String × Value)} {s : DirectiveFields} {d : Directive}
    (hform : directiveForms.lookup kind = some form)
    (hkept : ∀ entry ∈ entries, entry.1 ≠ "kind" ∧ entry.2.doc.check room = .ok ())
    (hfills : Fills 0 form.fields form.start entries s)
    (hfinish : form.finish form.lacks s = .ok d) :
    decodeDirective (room + 1) (Value.object (("kind", .string kind) :: entries)).doc = .ok d := by
  have hkind : decodeKind (Doc.ofString kind) = .ok form := by
    simp [decodeKind, decodeIdentifier, Doc.ofString, ofFlaw, bind, Except.bind, hform]
  have hkeep : keepEntries room (Value.entryDocs (("kind", .string kind) :: entries)) none =
      .ok (some form, Value.entryDocs entries) := by
    simp [Value.entryDocs, Value.doc, keepEntries, keyText_ofString, ofFlaw, hkind,
      keepEntries_entryDocs hkept, bind, Except.bind]
  have hdirective := Form.ofEntries_of_fills hfills hfinish
  simp [Value.doc, decodeDirective, enter, hkeep, decodeEnding, Doc.skipEnding, ofFlaw,
    hdirective, bind, Except.bind, pure, Except.pure]

/-- A directive is read back. -/
theorem decodeDirective_directiveValue (room : Nat) (d : Directive) :
    decodeDirective (room + 2) (directiveValue d).doc = .ok d := by
  cases d with
  | command path =>
    exact decodeDirective_of_fills rfl (by simp [check_string]) (.cons rfl rfl rfl .nil) rfl
  | bind path =>
    exact decodeDirective_of_fills rfl (by simp [check_string]) (.cons rfl rfl rfl .nil) rfl
  | literal segments aliases =>
    have hsegments := decodeStrings_ofStrings segments
    have haliases := decodeStrings_ofStrings aliases
    exact decodeDirective_of_fills rfl (by simp [check_ofStrings])
      (.cons rfl rfl hsegments (.cons rfl rfl haliases .nil)) rfl
  | argument segments type suggestions =>
    have hsegments := decodeStrings_ofStrings segments
    cases suggestions with
    | none =>
      exact decodeDirective_of_fills rfl (by simp [optionalEntry, check_ofStrings, check_string])
        (.cons rfl rfl hsegments (.cons rfl rfl rfl .nil)) rfl
    | some suggestions =>
      exact decodeDirective_of_fills rfl (by simp [optionalEntry, check_ofStrings, check_string])
        (.cons rfl rfl hsegments (.cons rfl rfl rfl (.cons rfl rfl rfl .nil))) rfl

/-! ## Declarations and manifests -/

/-- A declaration is read back. -/
theorem decode_declarationValue (room : Nat) (d : Declaration) :
    declarationForm.decode (room + 4) (declarationValue d).doc = .ok d := by
  have helement := decode_elementValue room d.element
  have hdirective := decodeDirective_directiveValue (room + 1) d.directive
  exact Form.decode_of_fills (.cons rfl rfl helement (.cons rfl rfl hdirective .nil)) rfl

/-- A manifest is read back from its document. -/
theorem decode_value (room : Nat) (m : Manifest) :
    form.decode (room + 6) m.value.doc = .ok m := by
  have hsettings := decode_settingsValue (room + 3) m.settings
  have hdeclarations := decodeList_array (decode_declarationValue room) m.declarations
  exact Form.decode_of_fills (.cons rfl rfl hsettings (.cons rfl rfl hdeclarations .nil)) rfl

/-- Reads a whole text as `read` does, as a value of any form. -/
def readAs {α : Type} (decode : Nat → Doc → Except Problem α) (text : String) :
    Except Problem α := do
  let (doc, rest) := Doc.read text.toList
  let a ← decode maxDepth doc
  decodeRest rest
  pure a

theorem read_eq_readAs (text : String) : read text = readAs form.decode text := rfl

/-- The text of a value is read as what its document is decoded as. -/
theorem readAs_text {α : Type} {decode : Nat → Doc → Except Problem α} {v : Value} {a : α}
    (h : decode maxDepth v.doc = .ok a) : readAs decode (String.ofList v.text) = .ok a := by
  simp [readAs, Doc.read_text, h, decodeRest, bind, Except.bind, pure, Except.pure]

theorem fromUTF8?_toUTF8 (s : String) : String.fromUTF8? s.toUTF8 = some s := by
  have hvalid : s.toUTF8.IsValidUTF8 := s.isValidUTF8
  rw [String.fromUTF8?, dif_pos hvalid]
  rfl

/-- Settings, declarations and whole manifests are what their texts are read as. -/
theorem load_write :
    (∀ s : Settings, readAs settingsForm.decode (String.ofList (settingsValue s).text) = .ok s) ∧
    (∀ d : Declaration,
      readAs declarationForm.decode (String.ofList (declarationValue d).text) = .ok d) ∧
    ∀ m : Manifest, load (some m.write.toUTF8) = .ok m := by
  refine ⟨fun s => readAs_text (decode_settingsValue 125 s),
    fun d => readAs_text (decode_declarationValue 123 d), fun m => ?_⟩
  have hread : read m.write = .ok m := by
    rw [read_eq_readAs, write]
    exact readAs_text (decode_value 121 m)
  simp only [load, Option.bind_some, fromUTF8?_toUTF8, hread]

end CommandTree.Manifest
