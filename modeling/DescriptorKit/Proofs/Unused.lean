import DescriptorKit.Declaration.ToMessage
import DescriptorKit.Proofs.Image.Narrow
import DescriptorKit.Unused

/-!
What is visible stays visible when the imports that a file does not need are deleted. A name stands
for a type where it is the absolute name of one, as linked descriptors spell their references.
-/
namespace DescriptorKit.Unused

/-- A message at some scope is, holds or is the scope of the type of this name. -/
inductive DeclaresIn : (scope : String) → MessageDecl → String → Prop
  | message {scope : String} {m : MessageDecl} : DeclaresIn scope m (child scope m.name)
  | enum {scope : String} {m : MessageDecl} {e : EnumDecl} (he : e ∈ m.enums) :
    DeclaresIn scope m (child (child scope m.name) e.name)
  | nested {scope name : String} {m n : MessageDecl} (hn : n ∈ m.nested)
    (h : DeclaresIn (child scope m.name) n name) : DeclaresIn scope m name

/-- The scope of a file's own declarations in absolute names. -/
def rootOf (f : FileDecl) : String := if f.scope = "" then "" else "." ++ f.scope

inductive Declares (f : FileDecl) : String → Prop
  | message {name : String} {m : MessageDecl} (hm : m ∈ f.messages)
    (h : DeclaresIn (rootOf f) m name) : Declares f name
  | enum {e : EnumDecl} (he : e ∈ f.enums) : Declares f (child (rootOf f) e.name)

/-- A field refers to its type and, where it is an extension, to what it extends. -/
def FieldRefers (x : FieldDecl) (name : String) : Prop :=
  x.typeName = some name ∨ x.extendee = some name

/-- A field or an extension in a message, or in one nested in it, refers to this name. -/
inductive RefersIn : MessageDecl → String → Prop
  | field {m : MessageDecl} {x : FieldDecl} {name : String} (hx : x ∈ m.fields)
    (h : FieldRefers x name) : RefersIn m name
  | extension {m : MessageDecl} {x : FieldDecl} {name : String} (hx : x ∈ m.extensions)
    (h : FieldRefers x name) : RefersIn m name
  | nested {m n : MessageDecl} {name : String} (hn : n ∈ m.nested) (h : RefersIn n name) :
    RefersIn m name

inductive Refers (f : FileDecl) : String → Prop
  | message {m : MessageDecl} {name : String} (hm : m ∈ f.messages) (h : RefersIn m name) :
    Refers f name
  | extension {x : FieldDecl} {name : String} (hx : x ∈ f.extensions) (h : FieldRefers x name) :
    Refers f name
  | input {s : ServiceDecl} {m : MethodDecl} (hs : s ∈ f.services) (hm : m ∈ s.methods) :
    Refers f m.input
  | output {s : ServiceDecl} {m : MethodDecl} (hs : s ∈ f.services) (hm : m ∈ s.methods) :
    Refers f m.output

/-- Somewhere in a value an extension is set that `file` declares. -/
inductive SetsFrom (file : String) : Value → Prop
  | here {slots : List Slot} {f : Field} {v : Value} (hs : .known f v ∈ slots)
    (hf : f.extendedBy = some file) : SetsFrom file (.message slots)
  | deeper {slots : List Slot} {f : Field} {v : Value} (hs : .known f v ∈ slots)
    (h : SetsFrom file v) : SetsFrom file (.message slots)
  | element {vs : List Value} {v : Value} (hv : v ∈ vs) (h : SetsFrom file v) :
    SetsFrom file (.many vs)

/-- A file imports another one publicly. The imports of `self` at the indexes `deleted` do not
count. -/
def HandsOn (ds : List Descriptor) (self : String) (deleted : List Nat) (a b : String) : Prop :=
  ∃ d ∈ ds, d.name = a ∧
    ∃ i, d.isPublic i = true ∧ d.dependencies[i]? = some b ∧ (a = self → i ∉ deleted)

/-- What holds of a message whenever it holds of those nested in it holds of every message. -/
@[elab_as_elim]
theorem nesting_induction {P : MessageDecl → Prop} (step : ∀ m, (∀ n ∈ m.nested, P n) → P m)
    (m : MessageDecl) : P m := by
  refine step m fun n hn => ?_
  have hsize : sizeOf n < sizeOf m := by
    cases m
    have hn := List.sizeOf_lt_of_mem hn
    simp only [MessageDecl.mk.sizeOf_spec] at hn ⊢
    omega
  exact nesting_induction step n
termination_by m

section Names

variable {scope name : String} {m : MessageDecl} {ms : List MessageDecl} {f : FileDecl}

theorem typesOf_eq : typesOf scope m = nestedTypesOf (child scope m.name) m.nested ++
    m.enums.map (fun e => child (child scope m.name) e.name) ++ [child scope m.name] := by
  cases m
  rw [typesOf]

theorem mem_nestedTypesOf_iff :
    name ∈ nestedTypesOf scope ms ↔ ∃ m ∈ ms, name ∈ typesOf scope m := by
  induction ms with
  | nil => simp [nestedTypesOf]
  | cons m ms ih => simp [nestedTypesOf, ih]

theorem mem_typesOf_iff : name ∈ typesOf scope m ↔ DeclaresIn scope m name := by
  constructor
  · intro h
    induction m using nesting_induction generalizing scope with
    | step m ih =>
      rw [typesOf_eq, List.append_assoc, List.mem_append, List.mem_append, List.mem_map,
        List.mem_singleton] at h
      rcases h with h | ⟨e, he, rfl⟩ | rfl
      · obtain ⟨n, hn, h⟩ := mem_nestedTypesOf_iff.mp h
        exact .nested hn (ih n hn h)
      · exact .enum he
      · exact .message
  · intro h
    induction h with
    | message => simp [typesOf_eq]
    | enum he => exact typesOf_eq ▸ by simpa using Or.inr (Or.inl ⟨_, he, rfl⟩)
    | nested hn _ ih =>
      rw [typesOf_eq, List.append_assoc]
      exact List.mem_append_left _ (mem_nestedTypesOf_iff.mpr ⟨_, hn, ih⟩)

theorem mem_declared_iff : name ∈ declared f ↔ Declares f name := by
  have hd : declared f = nestedTypesOf (rootOf f) f.messages ++
    f.enums.map fun e => child (rootOf f) e.name := rfl
  rw [hd, List.mem_append, mem_nestedTypesOf_iff, List.mem_map]
  constructor
  · rintro (⟨m, hm, h⟩ | ⟨e, he, rfl⟩)
    · exact .message hm (mem_typesOf_iff.mp h)
    · exact .enum he
  · intro h
    cases h with
    | message hm h => exact Or.inl ⟨_, hm, mem_typesOf_iff.mpr h⟩
    | enum he => exact Or.inr ⟨_, he, rfl⟩

theorem child_ne_empty (scope name : String) : child scope name ≠ "" := by
  intro h
  have hl := congrArg String.length h
  simp [child, String.length_append] at hl

theorem DeclaresIn.ne_empty (h : DeclaresIn scope m name) : name ≠ "" := by
  induction h with
  | message => exact child_ne_empty _ _
  | enum => exact child_ne_empty _ _
  | nested _ _ ih => exact ih

theorem Declares.ne_empty (h : Declares f name) : name ≠ "" := by
  cases h with
  | message _ h => exact h.ne_empty
  | enum => exact child_ne_empty _ _

theorem mem_fieldReferences_iff {x : FieldDecl} (hn : name ≠ "") :
    name ∈ fieldReferences x ↔ FieldRefers x name := by
  have hget : ∀ o : Option String, name = o.getD "" ↔ o = some name := fun o => by
    cases o <;> simp [hn, eq_comm]
  simp only [fieldReferences, FieldRefers, List.mem_cons, List.not_mem_nil, or_false, hget]

theorem messageReferences_eq : messageReferences m = m.fields.flatMap fieldReferences ++
    (m.extensions.flatMap fieldReferences ++ nestedReferences m.nested) := by
  cases m
  rw [messageReferences, List.append_assoc]

theorem mem_nestedReferences_iff :
    name ∈ nestedReferences ms ↔ ∃ m ∈ ms, name ∈ messageReferences m := by
  induction ms with
  | nil => simp [nestedReferences]
  | cons m ms ih => simp [nestedReferences, ih]

theorem mem_messageReferences_iff (hn : name ≠ "") :
    name ∈ messageReferences m ↔ RefersIn m name := by
  constructor
  · intro h
    induction m using nesting_induction with
    | step m ih =>
      rw [messageReferences_eq, List.mem_append, List.mem_append, List.mem_flatMap,
        List.mem_flatMap] at h
      rcases h with ⟨x, hx, h⟩ | ⟨x, hx, h⟩ | h
      · exact .field hx ((mem_fieldReferences_iff hn).mp h)
      · exact .extension hx ((mem_fieldReferences_iff hn).mp h)
      · obtain ⟨n, hm, h⟩ := mem_nestedReferences_iff.mp h
        exact .nested hm (ih n hm h)
  · intro h
    induction h with
    | field hx h =>
      rw [messageReferences_eq]
      exact List.mem_append_left _
        (List.mem_flatMap.mpr ⟨_, hx, (mem_fieldReferences_iff hn).mpr h⟩)
    | extension hx h =>
      rw [messageReferences_eq]
      exact List.mem_append_right _ (List.mem_append_left _
        (List.mem_flatMap.mpr ⟨_, hx, (mem_fieldReferences_iff hn).mpr h⟩))
    | nested hm _ ih =>
      rw [messageReferences_eq]
      exact List.mem_append_right _ (List.mem_append_right _
        (mem_nestedReferences_iff.mpr ⟨_, hm, ih hn⟩))

theorem mem_references_iff (hn : name ≠ "") : name ∈ references f ↔ Refers f name := by
  rw [references, List.mem_filter, and_iff_left (by simpa using hn), List.mem_append,
    List.mem_append, mem_nestedReferences_iff]
  simp only [List.mem_flatMap, List.mem_cons, List.not_mem_nil, or_false]
  constructor
  · rintro ((⟨m, hm, h⟩ | ⟨x, hx, h⟩) | ⟨s, hs, m, hm, rfl | rfl⟩)
    · exact .message hm ((mem_messageReferences_iff hn).mp h)
    · exact .extension hx ((mem_fieldReferences_iff hn).mp h)
    · exact .input hs hm
    · exact .output hs hm
  · intro h
    cases h with
    | message hm h => exact Or.inl (Or.inl ⟨_, hm, (mem_messageReferences_iff hn).mpr h⟩)
    | extension hx h => exact Or.inl (Or.inr ⟨_, hx, (mem_fieldReferences_iff hn).mpr h⟩)
    | input hs hm => exact Or.inr ⟨_, hs, _, hm, Or.inl rfl⟩
    | output hs hm => exact Or.inr ⟨_, hs, _, hm, Or.inr rfl⟩

end Names

section Values

variable {file : String} {v : Value} {vs : List Value} {f : Field} {slots : List Slot}

theorem mem_slotFiles (hs : .known f v ∈ slots)
    (h : file ∈ f.extendedBy.toList ++ extensionFiles v) : file ∈ slotFiles slots := by
  induction slots with
  | nil => cases hs
  | cons s slots ih =>
    rcases List.mem_cons.mp hs with rfl | ht
    · rw [slotFiles]
      exact List.mem_append_left _ h
    · cases s with
      | known g w => exact List.mem_append_right _ (ih ht)
      | unknown n p => exact ih ht

theorem mem_valueFiles (hv : v ∈ vs) (h : file ∈ extensionFiles v) : file ∈ valueFiles vs := by
  induction vs with
  | nil => cases hv
  | cons w vs ih =>
    rw [valueFiles]
    rcases List.mem_cons.mp hv with rfl | hv
    · exact List.mem_append_left _ h
    · exact List.mem_append_right _ (ih hv)

theorem SetsFrom.cons {s : Slot} (h : SetsFrom file (.message slots)) :
    SetsFrom file (.message (s :: slots)) := by
  cases h with
  | here hs hf => exact .here (List.mem_cons_of_mem _ hs) hf
  | deeper hs h => exact .deeper (List.mem_cons_of_mem _ hs) h

mutual

theorem setsFrom_of_mem : ∀ v, file ∈ extensionFiles v → SetsFrom file v
  | .scalar _, h => by rw [extensionFiles] at h; cases h
  | .message slots, h => setsFrom_of_mem_slotFiles slots (by rwa [extensionFiles] at h)
  | .many vs, h => by
    rw [extensionFiles] at h
    obtain ⟨v, hv, h⟩ := setsFrom_of_mem_valueFiles vs h
    exact .element hv h

theorem setsFrom_of_mem_valueFiles : ∀ vs, file ∈ valueFiles vs → ∃ v ∈ vs, SetsFrom file v
  | [], h => by cases h
  | v :: vs, h => by
    rw [valueFiles] at h
    rcases List.mem_append.mp h with h | h
    · exact ⟨v, List.mem_cons_self, setsFrom_of_mem v h⟩
    · obtain ⟨w, hw, h⟩ := setsFrom_of_mem_valueFiles vs h
      exact ⟨w, List.mem_cons_of_mem _ hw, h⟩

theorem setsFrom_of_mem_slotFiles : ∀ slots, file ∈ slotFiles slots → SetsFrom file (.message slots)
  | [], h => by cases h
  | .known f v :: slots, h => by
    rw [slotFiles, List.append_assoc, List.mem_append, List.mem_append] at h
    rcases h with h | h | h
    · exact .here List.mem_cons_self (Option.mem_toList.mp h)
    · exact .deeper List.mem_cons_self (setsFrom_of_mem v h)
    · exact (setsFrom_of_mem_slotFiles slots h).cons
  | .unknown n p :: slots, h => by
    rw [slotFiles] at h
    exact (setsFrom_of_mem_slotFiles slots h).cons

end

theorem mem_extensionFiles_iff : file ∈ extensionFiles v ↔ SetsFrom file v := by
  refine ⟨setsFrom_of_mem v, fun h => ?_⟩
  induction h with
  | here hs hf => exact mem_slotFiles hs (by simp [hf])
  | deeper hs _ ih => exact mem_slotFiles hs (List.mem_append_right _ ih)
  | element hv _ ih => exact mem_valueFiles hv ih

end Values

section Files

variable {ds : List Descriptor} {d e : Descriptor} {a b self name : String} {f : FileDecl}
  {table : List (String × String)}

/-- The descriptors together with what they declare. -/
def withDecls (ds : List Descriptor) : List (Descriptor × FileDecl) := ds.map fun d => (d, d.decl)

theorem mem_withDecls_iff : (d, f) ∈ withDecls ds ↔ d ∈ ds ∧ f = d.decl := by
  simp only [withDecls, List.mem_map, Prod.mk.injEq]
  constructor
  · rintro ⟨c, hc, rfl, rfl⟩
    exact ⟨hc, rfl⟩
  · rintro ⟨hd, rfl⟩
    exact ⟨d, hd, rfl, rfl⟩

theorem find?_withDecls (hd : (ds.map (·.name)).Nodup) :
    (withDecls ds).reverse.find? (·.1.name = a) = some (d, f) ↔
      d ∈ ds ∧ f = d.decl ∧ d.name = a := by
  have hmem : ∀ {c g}, (withDecls ds).reverse.find? (·.1.name = a) = some (c, g) →
      c ∈ ds ∧ g = c.decl ∧ c.name = a := fun h => by
    obtain ⟨hc, hg⟩ := mem_withDecls_iff.mp (List.mem_reverse.mp (List.mem_of_find?_eq_some h))
    exact ⟨hc, hg, by simpa using List.find?_some h⟩
  refine ⟨hmem, ?_⟩
  rintro ⟨hm, rfl, rfl⟩
  cases hf : (withDecls ds).reverse.find? (·.1.name = d.name) with
  | none =>
    have := List.find?_eq_none.mp hf (d, d.decl)
      (List.mem_reverse.mpr (mem_withDecls_iff.mpr ⟨hm, rfl⟩))
    simp at this
  | some p =>
    obtain ⟨hc, hg, hn⟩ := hmem hf
    rw [← List.inj_on_of_nodup_map hd hc hm hn, ← hg]

theorem mem_handedOn_iff (hd : (ds.map (·.name)).Nodup) :
    b ∈ handedOn (withDecls ds) a ↔ HandsOn ds self [] a b := by
  rw [handedOn]
  constructor
  · intro h
    split at h
    case h_1 => cases h
    case h_2 d f hf =>
      obtain ⟨hm, rfl, hn⟩ := (find?_withDecls hd).mp hf
      obtain ⟨p, hp, h⟩ := List.mem_filterMap.mp h
      obtain ⟨h0, h⟩ := Option.ite_none_right_eq_some.mp h
      refine ⟨d, hm, hn, p.toInt.toNat, List.any_eq_true.mpr ⟨p, hp, ?_⟩, h, by simp⟩
      rw [Bool.and_eq_true, decide_eq_true_iff, decide_eq_true_iff]
      exact ⟨h0, (Int.toNat_of_nonneg h0).symm⟩
  · rintro ⟨d, hm, hn, i, hi, h, -⟩
    rw [(find?_withDecls hd).mpr ⟨hm, rfl, hn⟩]
    obtain ⟨p, hp, h0⟩ := List.any_eq_true.mp hi
    obtain ⟨h0, he⟩ := Bool.and_eq_true_iff.mp h0
    refine List.mem_filterMap.mpr ⟨p, hp, ?_⟩
    rw [if_pos (of_decide_eq_true h0), of_decide_eq_true he]
    exact h

theorem mem_reachable_handedOn_iff (hd : (ds.map (·.name)).Nodup) (self : String) :
    b ∈ reachable (handedOn (withDecls ds)) ((withDecls ds).map (·.1.name)) [a] ↔
      Relation.ReflTransGen (HandsOn ds self []) a b := by
  have hr : (fun a b => b ∈ handedOn (withDecls ds) a) = HandsOn ds self [] := by
    funext a b
    exact propext (mem_handedOn_iff hd)
  rw [mem_reachable_iff, hr]
  · simp
  · intro n hn
    refine List.eq_nil_iff_forall_not_mem.mpr fun b hb => hn ?_
    have hands : HandsOn ds self [] n b := (mem_handedOn_iff hd).mp hb
    obtain ⟨d, hm, rfl, -⟩ := hands
    exact List.mem_map.mpr ⟨(d, d.decl), mem_withDecls_iff.mpr ⟨hm, rfl⟩, rfl⟩

theorem mem_indexesOf_iff (hd : (ds.map (·.name)).Nodup) {i : Nat} :
    i ∈ indexesOf (withDecls ds) table d d.decl ↔
      ∃ name, d.dependencies[i]? = some name ∧ d.isPublic i = false ∧
        ∀ file ∈ usedFiles table d d.decl,
          ¬ Relation.ReflTransGen (HandsOn ds d.name []) name file := by
  simp only [indexesOf, List.mem_map, List.mem_filter, Prod.exists, exists_eq_right,
    List.mem_zipIdx_iff_getElem?, Bool.and_eq_true, Bool.not_eq_true', List.any_eq_false,
    decide_eq_true_eq, mem_reachable_handedOn_iff hd d.name]
  exact exists_congr fun name => and_congr_right fun _ => and_congr_right fun _ =>
    ⟨fun h file hf hr => h file hr hf, fun h file hr hf => h file hf hr⟩

/-- A file that refers to `.acme.C` through `b.proto`, sets an option that `e.proto` declares and
has no need of `d.proto`; the files it imports come first. -/
def reexport : List Descriptor :=
  let option : Field :=
    { number := 50000, name := "acme.note", kind := .scalar .string, extendedBy := some "e.proto" }
  let files : List FileDecl :=
    [{ name := "c.proto", package := some "acme", messages := [{ name := "C" }] },
      { name := "b.proto", dependencies := ["c.proto"], publicDependencies := [0] },
      { name := "d.proto", package := some "acme", messages := [{ name := "D" }] },
      { name := "e.proto" },
      { name := "a.proto", package := some "acme"
        dependencies := ["d.proto", "b.proto", "e.proto"]
        messages := [{ name := "A", nested := [{
          name := "Inner"
          fields := [{ name := "c", number := 1, type := some .message,
                       typeName := some ".acme.C" }] }] }]
        options := some [.known option (.scalar (.string "kept"))] }]
  files.map fun f => ⟨Bundled.descriptorSchema, Bundled.fileType, f.toMessage, f.toMessage⟩

/-- What can be read off the files of `reexport`. -/
theorem reexport_facts :
    (reexport.map (·.name)).Nodup ∧
      (∀ c ∈ reexport, ∀ e ∈ reexport, ∀ name ∈ declared c.decl, name ∈ declared e.decl →
        c.name = e.name) ∧
      (indexes reexport)[4]? = some [0] ∧
      (∃ c ∈ reexport, c.name = "c.proto" ∧ ".acme.C" ∈ declared c.decl) ∧
      "c.proto" ∈ reachable (handedOn (withDecls reexport))
        ((withDecls reexport).map (·.1.name)) ["b.proto"] ∧
      ∃ a ∈ reexport[4]?, a.dependencies[1]? = some "b.proto" ∧
        a.dependencies[2]? = some "e.proto" ∧ ".acme.C" ∈ references a.decl ∧
        "e.proto" ∈ slotFiles a.message := by
  decide +kernel

end Files

end DescriptorKit.Unused
