import DescriptorKit.Proofs.Descriptor
import DescriptorKit.Proofs.Message.Change

/-!
Changes to descriptors. They edit options and source locations, and whatever becomes of them, the
typed message goes on telling the same name and the same imports.
-/
namespace DescriptorKit.Descriptor
open Wire Payload Bundled Message

variable {d e : Descriptor} {g : Field} {P : Field → Prop} {S : Schema} {t : MessageType}

/-- What a change does: the message is the changed one, and the typed message follows where it can
be read. -/
theorem modify_cases {α : Type} (d : Descriptor) (change : Message → Message × Except Breach α) :
    (∃ f, readTyped (change d.message).1.encode = .error f ∧
      d.modify change = ({ d with message := (change d.message).1 }, .error (.decode f))) ∨
    ∃ typed, readTyped (change d.message).1.encode = .ok typed ∧
      d.modify change = ({ d with message := (change d.message).1, typed },
        (change d.message).2.mapError .breach) := by
  cases h : readTyped (change d.message).1.encode with
  | error f =>
    refine Or.inl ⟨f, rfl, ?_⟩
    simp only [modify, h]
  | ok typed =>
    refine Or.inr ⟨typed, rfl, ?_⟩
    simp only [modify, h]

/-- The fields that say what a file is called and what it imports. -/
def structural : List Field := [nameField, dependencyField, publicField]

theorem declares_of_structural (hg : g ∈ structural) : Declares g := by
  simp only [structural, List.mem_cons, List.not_mem_nil, or_false] at hg
  rcases hg with rfl | rfl | rfl
  · exact declares_name
  · exact declares_dependency
  · exact declares_public

/-- The schema declares the structural fields of descriptors as they are, or not at all. -/
def Standard (S : Schema) (t : MessageType) : Prop := ∀ g ∈ structural, Honours S t g.number g

theorem Builtin.standard (h : d.Builtin) : Standard d.schema d.type := by
  intro g hg
  rw [h.schema, h.type]
  exact keeps_descriptorSchema (declares_of_structural hg)

/-- A descriptor that came from another one: it tells of the same name and imports, where the schema
is a standard one. -/
structure Follows (d e : Descriptor) : Prop where
  sound : d.Sound → e.Sound
  schema : e.schema = d.schema
  type : e.type = d.type
  held : d.Sound → Standard d.schema d.type → ∀ g ∈ structural, d.Synced g →
    e.Synced g ∧ Message.held g e.typed = Message.held g d.typed

theorem Follows.refl (d : Descriptor) : Follows d d := ⟨id, rfl, rfl, fun _ _ _ _ h => ⟨h, rfl⟩⟩

theorem Follows.trans {d' : Descriptor} (h : Follows d d') (h' : Follows d' e) : Follows d e where
  sound hd := h'.sound (h.sound hd)
  schema := h'.schema.trans h.schema
  type := h'.type.trans h.type
  held hd hs g hg hsync := by
    obtain ⟨hsync', heq⟩ := h.held hd hs g hg hsync
    rw [← h.schema, ← h.type] at hs
    obtain ⟨hsync'', heq'⟩ := h'.held (h.sound hd) hs g hg hsync'
    exact ⟨hsync'', heq'.trans heq⟩

/-- Edits of other fields than structural ones. -/
theorem modify_follows {α : Type} {change : Message → Message × Except Breach α}
    (h : d.Sound → Edits d.schema d.type P d.message (change d.message).1)
    (hp : ∀ f g, g ∈ structural → P f → Alike f g → f.number ≠ g.number) :
    Follows d (d.modify change).1 := by
  have honly : d.Sound → Standard d.schema d.type → ∀ g ∈ structural,
      (change d.message).1.only g.number = d.message.only g.number := by
    intro hd hs g hg
    refine (h hd).only hd.regular hd.type_mem hd.typed hd.sorted (hs g hg).calm
      fun f hf hpf he => ?_
    have hfield := hd.regular.field?_of_mem hd.type_mem hf
    rw [he] at hfield
    exact hp f g hg hpf ((hs g hg).alike f hfield) he
  have hsound : d.Sound → (change d.message).1.Sorted ∧
      Typed d.schema d.type (change d.message).1 := fun hd =>
    ⟨(h hd).sorted hd.sorted, (h hd).typed hd.regular hd.type_mem hd.typed⟩
  rcases d.modify_cases change with ⟨f, -, hmod⟩ | ⟨typed, htyped, hmod⟩
  · rw [hmod]
    refine ⟨fun hd => ⟨hd.regular, hd.type_mem, (hsound hd).1, (hsound hd).2⟩, rfl, rfl, ?_⟩
    intro hd hs g hg hsync
    refine ⟨fun k hk => ?_, rfl⟩
    dsimp only at hk
    rw [honly hd hs g hg] at hk
    exact hsync k hk
  · rw [hmod]
    refine ⟨fun hd => ⟨hd.regular, hd.type_mem, (hsound hd).1, (hsound hd).2⟩, rfl, rfl, ?_⟩
    intro hd hs g hg hsync
    have hdecl := declares_of_structural hg
    refine ⟨synced_of_readTyped hdecl hd.regular hd.type_mem (hsound hd).2 htyped, ?_⟩
    have hread := Fills.only hd.regular hd.type_mem (hsound hd).2 hdecl.calm
      (readTyped_eq_ok_iff.mp htyped)
    rw [honly hd hs g hg] at hread
    rw [← hsync _ hread, held_only]

theorem not_structural {name : String} (hn : name ≠ "name" ∧ name ≠ "dependency" ∧
    name ≠ "public_dependency") (f g : Field) (hg : g ∈ structural) (hf : f.name = name)
    (ha : Alike f g) : f.number ≠ g.number := by
  have hname := ha.name
  rw [hf] at hname
  simp only [structural, List.mem_cons, List.not_mem_nil, or_false] at hg
  rcases hg with rfl | rfl | rfl
  · exact absurd hname hn.1
  · exact absurd hname hn.2.1
  · exact absurd hname hn.2.2

theorem setFileOption_follows (d : Descriptor) (name : String) (s : Scalar) :
    Follows d (d.setFileOption name s).1 :=
  modify_follows (fun hd => setOption_edits hd.regular hd.type_mem hd.typed _ _ _ _)
    fun f g hg hf => not_structural (by decide) f g hg hf

theorem number_of_heads {path : List Int32} {f : Field}
    (hp : path.head? = some 4 ∨ path.head? = some 7) (hf : Heads path f) :
    f.number = 4 ∨ f.number = 7 := by
  cases path with
  | nil => simp at hp
  | cons k rest =>
    simp only [List.head?_cons, Option.some.injEq] at hp
    rcases hp with rfl | rfl
    · exact Or.inl hf
    · exact Or.inr hf

theorem setJsType_follows (d : Descriptor) {path : List Int32} (code : Int32)
    (hp : path.head? = some 4 ∨ path.head? = some 7) : Follows d (d.setJsType path code).1 := by
  refine modify_follows (fun hd =>
    updateAt_edits hd.regular _ _ _ _ _ path _ _ hd.type_mem hd.typed)
    fun f g hg hf _ => ?_
  have hnum := number_of_heads hp hf
  have hg' : g.number = 1 ∨ g.number = 3 ∨ g.number = 10 := by
    simp only [structural, List.mem_cons, List.not_mem_nil, or_false] at hg
    rcases hg with rfl | rfl | rfl <;> simp [nameField, dependencyField, publicField]
  omega

theorem removeLocations_follows (d : Descriptor) (paths : List (List Int32)) :
    Follows d (d.removeLocations paths).1 := by
  unfold removeLocations
  split
  · exact .refl d
  · rename_i f hf
    split
    · exact .refl d
    · have hname : f.name = "source_code_info" := by simpa using List.find?_some hf
      refine modify_follows
        (fun hd => dropLocations_edits hd.regular hd.type_mem hd.typed hf paths) ?_
      rintro f g hg rfl
      exact not_structural (by decide) f g hg hname

/-- The name of a file and its imports. -/
structure SameStructure (d e : Descriptor) : Prop where
  name : e.name = d.name
  dependencies : e.dependencies = d.dependencies
  isPublic : ∀ i, e.isPublic i = d.isPublic i

theorem sameStructure_of_held
    (h : ∀ g ∈ structural, Message.held g e.typed = Message.held g d.typed) :
    SameStructure d e where
  name := by
    have hn := h nameField (by simp [structural])
    have htext : ∀ m : Message, m.textAt 1 = textOf (Message.held nameField m) :=
      textAt_eq rfl rfl rfl
    rw [name, name, htext, htext, hn]
  dependencies := by
    have hn := h dependencyField (by simp [structural])
    have hmany : ∀ m : Message, m.manyAt 3 = Message.held dependencyField m :=
      manyAt_eq rfl rfl rfl
    rw [dependencies, dependencies, textsAt, textsAt, hmany, hmany, hn]
  isPublic := by
    intro i
    have hn := h publicField (by simp [structural])
    have hmany : ∀ m : Message, m.manyAt 10 = Message.held publicField m := manyAt_eq rfl rfl rfl
    rw [isPublic, isPublic, intsAt, intsAt, hmany, hmany, hn]

end DescriptorKit.Descriptor
