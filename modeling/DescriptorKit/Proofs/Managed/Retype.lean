import DescriptorKit.Proofs.Descriptor.Follow
import DescriptorKit.Proofs.Image.Amenable
import DescriptorKit.Proofs.Managed.Idempotent

/-!
Which fields of a file are given another representation of their integers. The last rule for a field
decides, if the field holds integers of 64 bits and is not exempt; every other field is left as it
is, and the paths noted are those of the fields that changed.
-/
namespace DescriptorKit.Managed
open Bundled Descriptor Modifying

variable {C : Config} {f : ImageFile} {p : Progress} {rules : List FieldRule} {fullName : String}
  {D : FileDecl} {v : SiteView}

def OverrideValue.jsType? : OverrideValue → Option JsType
  | .jsType t => some t
  | _ => none

/-- The value of the last rule for a field. -/
def lastJsType? (fullName : String) (rules : List FieldRule) : Option JsType :=
  (rules.filter fun r => r.fieldName.all (· = fullName)).getLast?.bind fun r => r.value.jsType?

instance : Decidable (Eligible C f v) :=
  decidable_of_iff (v.wide = true ∧ C.fieldOptionDisabled f v.fullName .jsType = false)
    ⟨fun ⟨hw, he⟩ => ⟨hw, he⟩, fun ⟨hw, he⟩ => ⟨hw, he⟩⟩

/-- The representation that a field is to have. -/
def Config.jsTypeFor (C : Config) (f : ImageFile) (v : SiteView) : JsType :=
  if Eligible C f v then (lastJsType? v.fullName (jsTypeRules C f)).getD v.jsType else v.jsType

/-- The fields that are to have another representation than they have. -/
def Config.retyped (C : Config) (f : ImageFile) (views : List SiteView) : List SiteView :=
  views.filter fun v => C.jsTypeFor f v ≠ v.jsType

theorem Config.retyped_cons (C : Config) (f : ImageFile) (v : SiteView) (views : List SiteView) :
    C.retyped f (v :: views) =
      if C.jsTypeFor f v = v.jsType then C.retyped f views else v :: C.retyped f views := by
  rw [retyped, retyped]
  by_cases h : C.jsTypeFor f v = v.jsType
  · rw [if_pos h, List.filter_cons_of_neg (by simpa using h)]
  · rw [if_neg h, List.filter_cons_of_pos (by simpa using h)]

/-- The last rule decides, whatever was chosen before. -/
theorem applyJsType_eq (h : ∀ r ∈ rules, ∃ t, r.value = .jsType t) (t : Option JsType) :
    applyJsType fullName t rules = .ok ((lastJsType? fullName rules).or t) := by
  induction rules generalizing t with
  | nil => rfl
  | cons rule rest ih =>
    obtain ⟨⟨u, hu⟩, hrest⟩ := List.forall_mem_cons.mp h
    rw [applyJsType]
    by_cases hmatch : rule.fieldName.all (· = fullName) = true
    · rw [if_pos hmatch, hu]
      dsimp only [jsTypeValue]
      rw [ih hrest, lastJsType?, lastJsType?, List.filter_cons, if_pos hmatch,
        List.getLast?_cons]
      cases hl : (rest.filter fun r => r.fieldName.all (· = fullName)).getLast? with
      | none => simp [hu, OverrideValue.jsType?]
      | some r =>
        obtain ⟨w, hw⟩ := hrest r (List.mem_of_mem_filter (List.mem_of_getLast? hl))
        simp [hw, OverrideValue.jsType?]
    · rw [if_neg hmatch, ih hrest, lastJsType?, lastJsType?, List.filter_cons, if_neg hmatch]

/-- The changes to make are those to the fields that are to have another representation. -/
theorem jsTypeChanges_eq (h : ∀ r ∈ jsTypeRules C f, ∃ t, r.value = .jsType t)
    (sites : List FieldSite) : jsTypeChanges C f (jsTypeRules C f) sites =
      .ok ((C.retyped f (sites.map FieldSite.view)).map fun v => (v.path, C.jsTypeFor f v)) := by
  induction sites with
  | nil => rfl
  | cons s rest ih =>
    rw [jsTypeChanges, ih, List.map_cons, Config.retyped_cons]
    split
    · next hskip =>
      have hkept : C.jsTypeFor f s.view = s.view.jsType := if_neg fun he => eligible_iff.mp he hskip
      rw [if_pos hkept]
    · next hgo =>
      have hnew : C.jsTypeFor f s.view =
          (lastJsType? s.fullName (jsTypeRules C f)).getD s.view.jsType :=
        if_pos (eligible_iff.mpr hgo)
      rw [applyJsType_eq h, Option.or_none]
      cases hlast : lastJsType? s.fullName (jsTypeRules C f) with
      | none =>
        rw [hlast, Option.getD_none] at hnew
        rw [if_pos hnew]
      | some t =>
        rw [hlast, Option.getD_some] at hnew
        dsimp only
        by_cases ht : t = s.view.jsType
        · rw [if_pos (show t = jsTypeOf s.decl from ht), if_pos (hnew.trans ht)]
        · rw [if_neg (show t ≠ jsTypeOf s.decl from ht), if_neg (hnew ▸ ht), List.map_cons, hnew]
          rfl

/-- Every field is given the representation that it is to have. -/
theorem map_retypes (ha : D.Addressable) :
    D.views.map (SiteView.retypes ((C.retyped f D.views).map fun v => (v.path, C.jsTypeFor f v))) =
      D.views.map fun v => { v with jsType := C.jsTypeFor f v } := by
  refine List.map_congr_left fun v hv => ?_
  have hone : ∀ c ∈ (C.retyped f D.views).map (fun v => (v.path, C.jsTypeFor f v)),
      c.1 = v.path → c.2 = C.jsTypeFor f v := by
    intro c hc he
    obtain ⟨u, hu, rfl⟩ := List.mem_map.mp hc
    rw [FileDecl.view_unique ha (List.mem_of_mem_filter hu) hv he]
  rw [SiteView.retypes_eq]
  congr 1
  by_cases hkept : C.jsTypeFor f v = v.jsType
  · exact SiteView.retypes_stays hone hkept.symm
  · exact SiteView.retypes_jsType
      (List.mem_map.mpr ⟨v, List.mem_filter.mpr ⟨hv, by simpa using hkept⟩, rfl⟩) hone

theorem jsTypeRules_subset : jsTypeRules C f ⊆ C.fieldRules :=
  fun _ h => List.mem_of_mem_filter (List.mem_of_mem_filter h)

/-- What setting the representation of integers comes to if it succeeds. -/
theorem modifyJsTypes_eq {q : Progress} (h : p.file.descriptor.Mirrored)
    (ha : p.file.descriptor.decl.Addressable) (hT : ∀ r ∈ C.fieldRules, ∃ t, r.value = .jsType t)
    (hrun : runOn (modifyJsTypes C) p = (.ok (), q)) :
    q.file.descriptor.decl.views = (p.file.descriptor.decl.views.map fun v =>
        { v with jsType := C.jsTypeFor p.file v }) ∧
      q.marks = p.marks ++ (C.retyped p.file p.file.descriptor.decl.views).map
        (·.path ++ [8, 6]) := by
  rw [runOn_modifyJsTypes, jsTypeChanges_eq fun r hr => hT r (jsTypeRules_subset hr),
    ← FileDecl.views] at hrun
  dsimp only at hrun
  have hleads : ∀ c ∈ (C.retyped p.file p.file.descriptor.decl.views).map
      (fun v => (v.path, C.jsTypeFor p.file v)), FileLeads c.1 := by
    intro c hc
    obtain ⟨v, hv, rfl⟩ := List.mem_map.mp hc
    exact ha.leads (List.mem_of_mem_filter hv)
  obtain ⟨d, hd, hset⟩ := setJsTypes_run h ha hleads (by
    rw [hrun]
    exact meant_ok _)
  rw [hset] at hrun
  obtain rfl := (Prod.mk.inj hrun).2
  refine ⟨hd.views.trans (map_retypes ha), ?_⟩
  dsimp only
  rw [List.map_map]
  rfl

/-- The walk over a file comes upon every field that is declared, once, and its path leads to it. If
setting the representation of integers succeeds, each field has the one that it is to have. -/
theorem modifyJsTypes_reaches (h : p.file.descriptor.Mirrored)
    (ha : p.file.descriptor.decl.Addressable)
    (hT : ∀ r ∈ C.fieldRules, ∃ t, r.value = .jsType t) :
    ((fieldSites p.file.descriptor.decl).map (·.path)).Nodup ∧
      (∀ s : FieldSite, s ∈ fieldSites p.file.descriptor.decl ↔
        p.file.descriptor.decl.HasField s.path s.fullName s.decl) ∧
      (p.file.descriptor.schema.Walkable → ∀ s ∈ fieldSites p.file.descriptor.decl,
        ∃ w inner z,
          Message.GoesTo p.file.descriptor.schema s.path p.file.descriptor.type
            p.file.descriptor.message w inner ∧
          Message.decode descriptorSchema .typed fieldType inner.encode = .ok z ∧
          FieldDecl.ofMessage z = s.decl) ∧
      ∀ q, runOn (modifyJsTypes C) p = (.ok (), q) →
        q.file.descriptor.decl.views = (p.file.descriptor.decl.views.map fun v =>
          { v with jsType := C.jsTypeFor p.file v }) ∧
        q.marks =
          p.marks ++ (C.retyped p.file p.file.descriptor.decl.views).map (·.path ++ [8, 6]) :=
  ⟨FileDecl.nodup_fieldSites ha, fun _ => FileDecl.mem_fieldSites ha,
    fun hwalk _ hs => exists_reached h ha hwalk hs, fun _ hrun => modifyJsTypes_eq h ha hT hrun⟩

section Runs

/-- The bytes of a file with fields of 64 bits in a message, in a message in that, and outside of
both. -/
def scattered : Bytes :=
  FileDecl.toMessage
    { name := "a.proto"
      messages := [{ name := "M", fields := [one "id" 1 int64, one "name" 2 text]
                     nested := [{ name := "N", fields := [many "ids" 1 uint64] }] }]
      extensions := [one "extra" 1000 int64] } |>.encode

/-- Represents integers of 64 bits as strings, those of one field as numbers, and leaves those of
another field alone. -/
def mixed : Config :=
  { disables := [{ fieldName := some "M.id" }]
    fieldRules := [{ option := .jsType, value := .jsType .string },
      { fieldName := some "M.N.ids", option := .jsType, value := .jsType .number }] }

/-- The representations in a file after a pass over its fields that succeeds. -/
def retypedIn (C : Config) (f : ImageFile) : Option (List JsType) :=
  match runOn (modifyJsTypes C) { file := f } with
  | (.ok _, q) => some (q.file.descriptor.decl.views.map (·.jsType))
  | (.error _, _) => none

theorem exists_run_of_retypedIn {ts : List JsType} (h : retypedIn C f = some ts) :
    ∃ q, runOn (modifyJsTypes C) { file := f } = (.ok (), q) ∧
      q.file.descriptor.decl.views.map (·.jsType) = ts := by
  rw [retypedIn] at h
  split at h
  · next q hq => exact ⟨q, hq, Option.some.inj h⟩
  · cases h

/-- The file that a descriptor is for. -/
def fileOf (d : Descriptor) : ImageFile := { descriptor := d, externalPath := d.name }

theorem retypedIn_scattered : (Descriptor.decode scattered).toOption.map
      (fun d => (Image.isRoomy d, retypedIn mixed (fileOf d))) =
    some (true, some [.normal, .normal, .number, .string]) := by
  decide +kernel

theorem modifyJsTypes_reaches_scattered : ∃ d q, Descriptor.decode scattered = .ok d ∧
    d.Mirrored ∧ d.decl.Addressable ∧ d.schema.Walkable ∧
    (∀ r ∈ mixed.fieldRules, ∃ t, r.value = .jsType t) ∧
    (∀ s ∈ fieldSites d.decl, ∃ w inner z, Message.GoesTo d.schema s.path d.type d.message w inner ∧
      Message.decode descriptorSchema .typed fieldType inner.encode = .ok z ∧
      FieldDecl.ofMessage z = s.decl) ∧
    runOn (modifyJsTypes mixed) { file := fileOf d } = (.ok (), q) ∧
    q.file.descriptor.decl.views = (d.decl.views.map fun v =>
      { v with jsType := mixed.jsTypeFor (fileOf d) v }) ∧
    q.file.descriptor.decl.views.map (·.jsType) = [.normal, .normal, .number, .string] := by
  obtain ⟨d, hd, h⟩ := Option.map_eq_some_iff.mp retypedIn_scattered
  obtain ⟨hroomy, hrun⟩ := Prod.mk.inj h
  have hd := ok_of_toOption hd
  have hroomy := Image.roomy_of_isRoomy (decode_builtin hd).schema hroomy
  obtain ⟨q, hq, hts⟩ := exists_run_of_retypedIn hrun
  have hT : ∀ r ∈ mixed.fieldRules, ∃ t, r.value = .jsType t := by simp [mixed]
  have hmirrored := decode_mirrored hd
  obtain ⟨-, -, hreached, hviews⟩ := modifyJsTypes_reaches (p := { file := fileOf d }) hmirrored
    hroomy.addressable hT
  have hwalk := hroomy.settable.walkable
  exact ⟨d, q, hd, hmirrored, hroomy.addressable, hwalk, hT, hreached hwalk, hq,
    (hviews q hq).1, hts⟩

/-- The representations in the files of an image, those they are to have and those that a pass over
their fields leaves. -/
def movedTypes (I : Image) : List (List JsType × Option (List JsType)) :=
  I.files.map fun f =>
    (f.descriptor.decl.views.map (onlyStrings.jsTypeFor f), retypedIn onlyStrings f)

theorem movedTypes_moved : (Image.decode moved {}).toOption.bind (fun I => (movedTypes I)[1]?) =
    some ([.string], some [.normal]) := by
  decide +kernel

/-- Where the schema has another number for the option, a field is not seen to be set. -/
theorem not_reaches_moved : ∃ I f q, Image.decode moved {} = .ok I ∧ f ∈ I.files ∧
    runOn (modifyJsTypes onlyStrings) { file := f } = (.ok (), q) ∧
      q.file.descriptor.decl.views ≠ f.descriptor.decl.views.map fun v =>
        { v with jsType := onlyStrings.jsTypeFor f v } := by
  obtain ⟨I, hI, h⟩ := Option.bind_eq_some_iff.mp movedTypes_moved
  obtain ⟨f, hf, he⟩ := List.mem_map.mp (List.mem_of_getElem? h)
  obtain ⟨hwanted, hrun⟩ := Prod.mk.inj he
  obtain ⟨q, hq, hts⟩ := exists_run_of_retypedIn hrun
  refine ⟨I, f, q, ok_of_toOption hI, hf, hq, fun hviews => ?_⟩
  rw [hviews, List.map_map] at hts
  exact absurd (hwanted.symm.trans hts) (by decide)

end Runs

end DescriptorKit.Managed
