import DescriptorKit.Pool.Resolve
import DescriptorKit.Proofs.Pool.Names

/-!
Views that agree. What a name stands for, as far as it is no package, is the same in both, and so is
whether anything is wrong with a file.
-/
namespace DescriptorKit.Pool
open Names

/-- Both come to the same, or neither comes to anything. -/
inductive Matches {ε α : Type} : Except ε α → Except ε α → Prop
  | ok (a : α) : Matches (.ok a) (.ok a)
  | error (e f : ε) : Matches (.error e) (.error f)

/-- The same names stand for the same, packages apart, and the same files are visible. -/
structure View.Agrees (V W : View) : Prop where
  symbols : SameEntries V.symbols W.symbols
  visible : W.visible = V.visible

variable {V W : View} {accepts : SymbolSort → Bool} {name expected scope : String}

namespace View

theorem Agrees.find?_cases (h : V.Agrees W) (name : String) :
    (find? V.symbols name = none ∧ find? W.symbols name = none) ∨
    (∃ s, find? V.symbols name = some s ∧ find? W.symbols name = some s) ∨
    ∃ s t, find? V.symbols name = some s ∧ find? W.symbols name = some t ∧
      s.sort = .package ∧ t.sort = .package := by
  have hrel := h.symbols name
  revert hrel
  generalize find? V.symbols name = x, find? W.symbols name = y
  intro hrel
  cases hrel with
  | none => exact .inl ⟨rfl, rfl⟩
  | some hst =>
    rcases hst with rfl | ⟨hs, ht⟩
    · exact .inr (.inl ⟨_, rfl, rfl⟩)
    · exact .inr (.inr ⟨_, _, rfl, rfl, hs, ht⟩)

/-- Looking a name up finds the same, or finds nothing that is accepted. -/
theorem Agrees.lookup_cases (h : V.Agrees W) (ha : accepts .package = false) (name : String) :
    V.lookup accepts name = W.lookup accepts name ∨
      ((∀ s, V.lookup accepts name ≠ .found s) ∧ ∀ s, W.lookup accepts name ≠ .found s) := by
  rw [lookup, lookup]
  rcases h.find?_cases name with ⟨hs, ht⟩ | ⟨s, hs, ht⟩ | ⟨s, t, hs, ht, hps, hpt⟩
  · exact .inl (by rw [hs, ht])
  · have hsees : W.sees s = V.sees s := by unfold sees; rw [h.visible]
    rw [hs, ht]
    dsimp only
    rw [hsees]
    exact .inl rfl
  · refine .inr ?_
    rw [hs, ht]
    dsimp only
    rw [hps, hpt, ha]
    constructor
    all_goals
      intro u
      split <;> simp

theorem Agrees.search (h : V.Agrees W) (ha : accepts .package = false) (name expected : String)
    (scopes : List String) : ∀ f g : Option LookupFault,
      Matches (V.search accepts name expected f scopes)
        (W.search accepts name expected g scopes) := by
  induction scopes with
  | nil => exact fun f g => .error _ _
  | cons scope outer ih =>
    intro f g
    rw [View.search, View.search]
    rcases h.lookup_cases ha (qualify scope name) with heq | ⟨hv, hw⟩
    · rw [heq]
      cases W.lookup accepts (qualify scope name) with
      | found s => exact .ok s
      | hidden => exact ih _ _
      | wrongSort s => exact ih _ _
      | missing => exact ih _ _
    · revert hv hw
      generalize V.lookup accepts (qualify scope name) = x,
        W.lookup accepts (qualify scope name) = y
      intro hv hw
      cases x with
      | found s => exact absurd rfl (hv s)
      | _ =>
        cases y with
        | found s => exact absurd rfl (hw s)
        | _ => exact ih _ _

theorem Agrees.member (h : V.Agrees W) (ha : accepts .package = false) (expected full : String)
    (missing : Fault) : Matches (V.member accepts expected full missing)
      (W.member accepts expected full missing) := by
  rw [View.member, View.member]
  rcases h.lookup_cases ha full with heq | ⟨hv, hw⟩
  · rw [heq]
    cases W.lookup accepts full with
    | found s => exact .ok s
    | hidden => exact .error _ _
    | wrongSort s => exact .error _ _
    | missing => exact .error _ _
  · revert hv hw
    generalize V.lookup accepts full = x, W.lookup accepts full = y
    intro hv hw
    cases x with
    | found s => exact absurd rfl (hv s)
    | _ =>
      cases y with
      | found s => exact absurd rfl (hw s)
      | _ => exact .error _ _

/-- Packages count as scopes wherever they belong to. -/
theorem Agrees.anchor?_eq (h : V.Agrees W) (first : String) :
    W.anchor? first = V.anchor? first := by
  funext scopes
  rw [anchor?, anchor?]
  congr 1
  funext scope
  rcases h.find?_cases (qualify scope first) with ⟨hs, ht⟩ | ⟨s, hs, ht⟩ | ⟨s, t, hs, ht, hps, hpt⟩
  · rw [hs, ht]
  · rw [hs, ht]
  · rw [hs, ht]
    dsimp only
    rw [hps, hpt]

theorem Agrees.resolve (h : V.Agrees W) (ha : accepts .package = false)
    (expected scope name : String) :
    Matches (V.resolve accepts expected scope name) (W.resolve accepts expected scope name) := by
  rw [View.resolve, View.resolve]
  split
  · exact h.member ha _ _ _
  · split
    · rw [h.anchor?_eq]
      split
      · exact .error _ _
      · exact h.member ha _ _ _
    · exact h.search ha _ _ _ _ _

theorem Agrees.type (h : V.Agrees W) (scope name : String) :
    Matches (V.type scope name) (W.type scope name) := h.resolve rfl _ _ _

theorem Agrees.message (h : V.Agrees W) (scope name : String) :
    Matches (V.message scope name) (W.message scope name) := h.resolve (by decide) _ _ _

end View

section Findings

variable {C D : Schema.Context} {ms ns : List MessagePlace} {file : String} {path : List Int32}

/-- The same enums and map entries are found. -/
structure ContextAgrees (C D : Schema.Context) : Prop where
  enums : ∀ name, D.enums.find? (·.name = name) = C.enums.find? (·.name = name)
  mapEntries : ∀ name, D.mapEntries.contains name = C.mapEntries.contains name

theorem ContextAgrees.defaultOf (h : ContextAgrees C D) :
    Schema.defaultOf D = Schema.defaultOf C := by
  funext kind text
  rw [Schema.defaultOf.eq_def, Schema.defaultOf.eq_def]
  cases kind <;> simp only [h.enums]

theorem ContextAgrees.kindOf (h : ContextAgrees C D) : Schema.kindOf D = Schema.kindOf C := by
  have hany : ∀ name, D.enums.any (·.name = name) = C.enums.any (·.name = name) := by
    intro name
    rw [← List.isSome_find?, ← List.isSome_find?, h.enums]
  funext d
  unfold Schema.kindOf
  simp only [hany]

theorem ContextAgrees.field (h : ContextAgrees C D) : Schema.field D = Schema.field C := by
  funext proto3 extendedBy d
  unfold Schema.field
  simp only [h.kindOf, h.defaultOf, h.mapEntries]

theorem ContextAgrees.messageType (h : ContextAgrees C D) :
    Schema.messageType D = Schema.messageType C := by
  funext proto3 s
  simp only [Schema.messageType, h.field, h.mapEntries]

theorem ContextAgrees.extensionsOf (h : ContextAgrees C D) :
    Schema.extensionsOf D = Schema.extensionsOf C := by
  funext f
  simp only [Schema.extensionsOf, h.field]

/-- What a file is looked at with: what it sees, and the types of all files. -/
structure LooksAlike (V W : View) (C D : Schema.Context) (ms ns : List MessagePlace) : Prop where
  view : V.Agrees W
  context : ContextAgrees C D
  messages : ∀ name, ns.find? (·.site.fullName = name) = ms.find? (·.site.fullName = name)

theorem lookupFindings_nil_of {r q : Except LookupFault Symbol} (h : Matches r q)
    (hr : lookupFindings file path r = []) : lookupFindings file path q = [] := by
  cases h with
  | ok s => rfl
  | error f g => cases hr

theorem typeFindings_nil_of (h : LooksAlike V W C D ms ns) {d : FieldDecl}
    (hd : typeFindings V C file scope path d = []) : typeFindings W D file scope path d = [] := by
  have hkind : defaultKind D = defaultKind C := by
    funext kind text
    cases kind <;> simp only [defaultKind, h.context.defaultOf]
  have hm := h.view.type scope
  unfold typeFindings at hd ⊢
  rw [hkind]
  revert hd
  extract_lets default
  clear_value default
  intro hd
  split at hd
  · exact hd
  · exact hd
  · exact hd
  · rename_i tn _ _
    have hone := hm (d.typeName.getD "")
    revert hone hd
    generalize V.type scope (d.typeName.getD "") = r, W.type scope (d.typeName.getD "") = q
    intro hd hone
    cases hone with
    | ok s => exact hd
    | error f g => cases hd

theorem extensionFindings_nil_of (h : LooksAlike V W C D ms ns) {d : FieldDecl}
    (hd : extensionFindings V C ms file scope path d = []) :
    extensionFindings W D ns file scope path d = [] := by
  have hm := h.view.message scope (d.extendee.getD "")
  unfold extensionFindings at hd ⊢
  rw [List.append_eq_nil_iff] at hd ⊢
  refine ⟨?_, typeFindings_nil_of h hd.2⟩
  replace hd := hd.1
  revert hm hd
  generalize V.message scope (d.extendee.getD "") = r, W.message scope (d.extendee.getD "") = q
  intro hm hd
  cases hm with
  | ok s =>
    dsimp only at hd ⊢
    rwa [h.messages]
  | error f g => cases hd

theorem fieldFindings_nil_of (h : LooksAlike V W C D ms ns) {m : MessageDecl}
    (hm : fieldFindings V C file scope path m = []) : fieldFindings W D file scope path m = [] := by
  unfold fieldFindings at hm ⊢
  rw [List.flatMap_eq_nil_iff] at hm ⊢
  intro p hp
  have hone := hm p hp
  simp only [List.append_eq_nil_iff] at hone ⊢
  obtain ⟨⟨⟨⟨hnumber, htype⟩, honeof⟩, hsame⟩, hjson⟩ := hone
  exact ⟨⟨⟨⟨hnumber, typeFindings_nil_of h htype⟩, honeof⟩, hsame⟩, hjson⟩

theorem extensions_nil_of (h : LooksAlike V W C D ms ns) {field : Int32} {ds : List FieldDecl}
    (hd : (ds.zipIdx.flatMap fun (d, i) =>
      extensionFindings V C ms file scope (MessageDecl.childPath path field i) d) = []) :
    (ds.zipIdx.flatMap fun (d, i) =>
      extensionFindings W D ns file scope (MessageDecl.childPath path field i) d) = [] := by
  rw [List.flatMap_eq_nil_iff] at hd ⊢
  exact fun p hp => extensionFindings_nil_of h (hd p hp)

mutual

theorem messageFindings_nil_of (h : LooksAlike V W C D ms ns) (file scope : String)
    (path : List Int32) : ∀ m : MessageDecl, messageFindings V C ms file scope path m = [] →
      messageFindings W D ns file scope path m = []
  | ⟨name, fields, nested, enums, ranges, extensions, options, oneofs, reserved, names⟩, hm => by
    rw [messageFindings] at hm ⊢
    simp only [List.append_eq_nil_iff] at hm ⊢
    obtain ⟨⟨⟨hfields, hnested⟩, henums⟩, hextensions⟩ := hm
    exact ⟨⟨⟨fieldFindings_nil_of h hfields,
      nestedFindings_nil_of h file _ path 3 0 nested hnested⟩, henums⟩,
      extensions_nil_of h hextensions⟩

theorem nestedFindings_nil_of (h : LooksAlike V W C D ms ns) (file scope : String)
    (path : List Int32) (field : Int32) (index : Nat) : ∀ nested : List MessageDecl,
      nestedFindings V C ms file scope path field index nested = [] →
        nestedFindings W D ns file scope path field index nested = []
  | [], _ => by rw [nestedFindings]
  | m :: rest, hm => by
    rw [nestedFindings, List.append_eq_nil_iff] at hm ⊢
    exact ⟨messageFindings_nil_of h file scope _ m hm.1,
      nestedFindings_nil_of h file scope path field (index + 1) rest hm.2⟩

end

/-- Nothing is wrong with a file among the same files in another order. -/
theorem fileFindings_nil_of {files others : List FileDecl} {symbols others' : List Symbol}
    {f : FileDecl} (h : LooksAlike (view symbols files f) (view others' others f) C D ms ns)
    (hp : others.Perm files) (hf : fileFindings symbols files C ms f = []) :
    fileFindings others' others D ns f = [] := by
  have himports : importFindings others f = importFindings files f := by
    have hany : ∀ d, others.any (·.name = d) = files.any (·.name = d) := by
      intro d
      rw [Bool.eq_iff_iff]
      simp only [List.any_eq_true, hp.mem_iff]
    simp only [importFindings, hany]
  unfold fileFindings at hf ⊢
  simp only [List.append_eq_nil_iff, List.flatMap_eq_nil_iff] at hf ⊢
  obtain ⟨⟨⟨⟨hi, hnested⟩, henums⟩, hservices⟩, hextensions⟩ := hf
  refine ⟨⟨⟨⟨by rwa [himports], nestedFindings_nil_of h _ _ _ _ _ _ hnested⟩, henums⟩, ?_⟩, ?_⟩
  · intro p hp q hq
    have hone := hservices p hp q hq
    unfold methodFindings at hone ⊢
    rw [List.append_eq_nil_iff] at hone ⊢
    exact ⟨lookupFindings_nil_of (h.view.message _ _) hone.1,
      lookupFindings_nil_of (h.view.message _ _) hone.2⟩
  · exact fun p hp => extensionFindings_nil_of h (hextensions p hp)

end Findings

section Resolved

theorem absoluteName_congr {r q : Except LookupFault Symbol} (h : Matches r q) :
    View.absoluteName q name = View.absoluteName r name := by
  cases h <;> rfl

theorem resolveField_congr (h : V.Agrees W) (scope : String) (d : FieldDecl) :
    resolveField W scope d = resolveField V scope d := by
  have hsort : W.sortOf? scope = V.sortOf? scope := by
    funext name
    rw [View.sortOf?, View.sortOf?]
    have hm := h.type scope name
    revert hm
    generalize V.type scope name = r, W.type scope name = q
    intro hm
    cases hm <;> rfl
  simp only [resolveField, hsort, absoluteName_congr (h.type scope _),
    absoluteName_congr (h.message scope _)]

mutual

theorem resolveMessage_congr (h : V.Agrees W) (scope : String) :
    ∀ m : MessageDecl, resolveMessage W scope m = resolveMessage V scope m
  | ⟨name, fields, nested, enums, ranges, extensions, options, oneofs, reserved, names⟩ => by
    rw [resolveMessage, resolveMessage, funext (resolveField_congr h _),
      resolveMessages_congr h _ nested]

theorem resolveMessages_congr (h : V.Agrees W) (scope : String) :
    ∀ ms : List MessageDecl, resolveMessages W scope ms = resolveMessages V scope ms
  | [] => by rw [resolveMessages, resolveMessages]
  | m :: rest => by
    rw [resolveMessages, resolveMessages, resolveMessage_congr h scope m,
      resolveMessages_congr h scope rest]

end

/-- What the names in a file stand for does not depend on where packages belong. -/
theorem resolveFile_congr (h : V.Agrees W) (f : FileDecl) : resolveFile W f = resolveFile V f := by
  have hmethod : ∀ scope, resolveMethod W scope = resolveMethod V scope := by
    intro scope
    funext m
    simp only [resolveMethod, absoluteName_congr (h.message scope _)]
  simp only [resolveFile, resolveMessages_congr h, funext (resolveField_congr h _), hmethod]

end Resolved

section Order

variable {files others : List FileDecl} {f : FileDecl}

/-- In any order of the files a file sees the same. -/
theorem view_agrees {symbols others' : List Symbol} (hs : SameEntries symbols others')
    (hp : others.Perm files) (hd : (files.map (·.name)).Nodup) (f : FileDecl) :
    (view symbols files f).Agrees (view others' others f) := by
  have hpublic : publicImports others = publicImports files := by
    funext name
    rw [publicImports, publicImports, find?_perm_of_nodup hp hd]
  have hhand : ∀ fuel, handOn others fuel = handOn files fuel := by
    intro fuel
    induction fuel with
    | zero => rfl
    | succ fuel ih =>
      funext visible name
      rw [handOn, handOn, hpublic, ih]
  refine ⟨hs, ?_⟩
  unfold view
  simp only [hhand, hp.length_eq]

end Order

end DescriptorKit.Pool
