import DescriptorKit.Pool.Options
import DescriptorKit.Proofs.Except
import DescriptorKit.Proofs.Pool.Names

/-!
The types and extensions that files declare, by name. All of them are among the names that a walk
over a file meets, so files whose names go together share none of them; and they stay as they are
when names are resolved and options are read.
-/
namespace DescriptorKit.Pool

section Heads

/-- The name of an enum and its values, which tell all that a field needs to know of it. -/
def enumHead (e : EnumDecl) : String × List (String × Int32) :=
  (e.name, e.values.map fun v => (v.name, v.number))

/-- What is told of a message by the names of what it declares. -/
def siteHead (s : MessageSite) : String × List (String × List (String × Int32)) × List String :=
  (s.fullName, s.decl.enums.map enumHead, s.decl.extensions.map (·.name))

/-- Two messages, and those nested in them, declare the same names. -/
def SameSites (m k : MessageDecl) : Prop :=
  ∀ path scope, (k.sites path scope).map siteHead = (m.sites path scope).map siteHead

/-- Two files declare the same names. -/
structure SameNames (f g : FileDecl) : Prop where
  scope : g.scope = f.scope
  enums : g.enums.map enumHead = f.enums.map enumHead
  extensions : g.extensions.map (·.name) = f.extensions.map (·.name)
  sites : g.sites.map siteHead = f.sites.map siteHead

variable {m k : MessageDecl} {ms ks : List MessageDecl} {f g : FileDecl}

theorem SameNames.trans {h : FileDecl} (hfg : SameNames f g) (hgh : SameNames g h) :
    SameNames f h :=
  ⟨hgh.scope.trans hfg.scope, hgh.enums.trans hfg.enums, hgh.extensions.trans hfg.extensions,
    hgh.sites.trans hfg.sites⟩

theorem sites_eq (path : List Int32) (scope : String) (m : MessageDecl) : m.sites path scope =
    ⟨path, qualify scope m.name, m⟩ ::
      MessageDecl.nestedSites path (qualify scope m.name) 0 m.nested := by
  cases m
  rw [MessageDecl.sites]

theorem nestedSites_same (h : List.Forall₂ SameSites ms ks) (path : List Int32) (scope : String)
    (index : Nat) : (MessageDecl.nestedSites path scope index ks).map siteHead =
      (MessageDecl.nestedSites path scope index ms).map siteHead := by
  induction h generalizing index with
  | nil => rfl
  | cons h _ ih =>
    rw [MessageDecl.nestedSites, MessageDecl.nestedSites, List.map_append, List.map_append, h, ih]

theorem sameSites_of (hname : k.name = m.name)
    (henums : k.enums.map enumHead = m.enums.map enumHead)
    (hextensions : k.extensions.map (·.name) = m.extensions.map (·.name))
    (hnested : List.Forall₂ SameSites m.nested k.nested) : SameSites m k := by
  intro path scope
  rw [sites_eq, sites_eq, List.map_cons, List.map_cons, hname, nestedSites_same hnested, siteHead,
    siteHead, henums, hextensions]

theorem fileSites_same (hscope : g.scope = f.scope)
    (h : List.Forall₂ SameSites f.messages g.messages) :
    g.sites.map siteHead = f.sites.map siteHead := by
  rw [FileDecl.sites, FileDecl.sites, hscope]
  have hall : ∀ index, ((g.messages.zipIdx index).flatMap fun p =>
      p.1.sites [4, Int32.ofNat p.2] f.scope).map siteHead =
        ((f.messages.zipIdx index).flatMap fun p =>
          p.1.sites [4, Int32.ofNat p.2] f.scope).map siteHead := by
    generalize f.scope = scope
    revert h
    generalize f.messages = ms, g.messages = ks
    intro h
    induction h with
    | nil => exact fun _ => rfl
    | cons h _ ih =>
      intro index
      rw [List.zipIdx_cons, List.zipIdx_cons, List.flatMap_cons, List.flatMap_cons, List.map_append,
        List.map_append, h, ih]
  exact hall 0

/-- The types of a file, under their full names. -/
def enumTypes (f : FileDecl) : List EnumType :=
  (Schema.enumsOf f).map fun (n, e) => Schema.enumType n e

def messageNames (f : FileDecl) : List String := f.sites.map (·.fullName)

def extensionNames (f : FileDecl) : List String :=
  f.extensions.map (fun d => qualify f.scope d.name) ++
    f.sites.flatMap fun s => s.decl.extensions.map fun d => qualify s.fullName d.name

theorem SameNames.enumTypes (h : SameNames f g) : enumTypes g = enumTypes f := by
  have heq : ∀ f : FileDecl, Pool.enumTypes f =
      ((f.enums.map enumHead).map fun e => ⟨qualify f.scope e.1, e.2⟩) ++
        (f.sites.map siteHead).flatMap fun s => s.2.1.map fun e => ⟨qualify s.1 e.1, e.2⟩ := by
    intro f
    simp only [Pool.enumTypes, Schema.enumsOf, List.map_append, List.map_map, List.map_flatMap,
      List.flatMap_map, Schema.enumType, enumHead, siteHead, Function.comp_def]
  rw [heq, heq, h.enums, h.scope, h.sites]

theorem SameNames.messageNames (h : SameNames f g) : messageNames g = messageNames f := by
  have heq : ∀ f : FileDecl, Pool.messageNames f = (f.sites.map siteHead).map (·.1) := by
    intro f
    rw [List.map_map]
    rfl
  rw [heq, heq, h.sites]

theorem SameNames.extensionNames (h : SameNames f g) : extensionNames g = extensionNames f := by
  have heq : ∀ f : FileDecl, Pool.extensionNames f =
      (f.extensions.map (·.name)).map (qualify f.scope) ++
        (f.sites.map siteHead).flatMap fun s => s.2.2.map (qualify s.1) := by
    intro f
    simp only [Pool.extensionNames, List.map_map, List.flatMap_map, siteHead, Function.comp_def]
  rw [heq, heq, h.extensions, h.scope, h.sites]

end Heads

section Declared
open Event

variable {α : Type} {file scope name : String} {proto3 : Bool} {path : List Int32}
  {sort : SymbolSort} {f : FileDecl} {files : List FileDecl}

/-- A walk declares a name of a sort. -/
def DeclaredIn (es : List Event) (sort : SymbolSort) (name : String) : Prop :=
  ∃ s, .declare s ∈ es ∧ s.sort = sort ∧ s.name = name

theorem DeclaredIn.mono {es fs : List Event} (h : DeclaredIn es sort name)
    (hsub : ∀ e ∈ es, e ∈ fs) : DeclaredIn fs sort name :=
  let ⟨s, hs, hsort, hname⟩ := h
  ⟨s, hsub _ hs, hsort, hname⟩

theorem exists_mem_zipIdx {items : List α} {a : α} (ha : a ∈ items) :
    ∃ i, (a, i) ∈ items.zipIdx := by
  obtain ⟨i, hi, rfl⟩ := List.getElem_of_mem ha
  exact ⟨i, List.mk_mem_zipIdx_iff_getElem?.mpr (List.getElem?_eq_getElem hi)⟩

theorem declaredIn_each {field : Int32} {nameOf : α → String} {items : List α} {a : α}
    (ha : a ∈ items) :
    DeclaredIn (each file sort scope path field nameOf items) sort (qualify scope (nameOf a)) := by
  obtain ⟨i, hi⟩ := exists_mem_zipIdx ha
  exact ⟨_, List.mem_map.mpr ⟨(a, i), hi, rfl⟩, rfl, rfl⟩

theorem declaredIn_ofEnums {field : Int32} {enums : List EnumDecl} {e : EnumDecl} (he : e ∈ enums) :
    DeclaredIn (ofEnums file proto3 scope path field enums) .enum (qualify scope e.name) := by
  obtain ⟨i, hi⟩ := exists_mem_zipIdx he
  exact ⟨_, List.mem_flatMap.mpr ⟨(e, i), hi, List.mem_cons_self⟩, rfl, rfl⟩

theorem ofMessage_eq (file : String) (proto3 : Bool) (scope : String) (path : List Int32)
    (m : MessageDecl) : ofMessage file proto3 scope path m =
      named file .message (qualify scope m.name) (path ++ [1]) ::
        (if proto3 then sameFolded file path [] m.fields.zipIdx else []) ++
        each file .oneof (qualify scope m.name) path 8 OneofDecl.name m.oneofs ++
        each file .field (qualify scope m.name) path 2 FieldDecl.name m.fields ++
        ofNested file proto3 (qualify scope m.name) path 3 0 m.nested ++
        ofEnums file proto3 (qualify scope m.name) path 4 m.enums ++
        each file .extension (qualify scope m.name) path 6 FieldDecl.name m.extensions := by
  cases m
  rw [ofMessage]

/-- The names that a message declares itself are among the declared ones. -/
structure DeclaresSite (es : List Event) (s : MessageSite) : Prop where
  message : DeclaredIn es .message s.fullName
  enum : ∀ e ∈ s.decl.enums, DeclaredIn es .enum (qualify s.fullName e.name)
  extension : ∀ d ∈ s.decl.extensions, DeclaredIn es .extension (qualify s.fullName d.name)

theorem DeclaresSite.mono {es fs : List Event} {s : MessageSite} (h : DeclaresSite es s)
    (hsub : ∀ e ∈ es, e ∈ fs) : DeclaresSite fs s :=
  ⟨h.message.mono hsub, fun e he => (h.enum e he).mono hsub,
    fun d hd => (h.extension d hd).mono hsub⟩

mutual

theorem declaresSite_ofMessage (file : String) (proto3 : Bool) (scope : String)
    (path p : List Int32) : ∀ m : MessageDecl, ∀ s ∈ m.sites p scope,
      DeclaresSite (ofMessage file proto3 scope path m) s
  | ⟨name, fields, nested, enums, ranges, extensions, options, oneofs, reserved, names⟩ => by
    intro s hs
    rw [ofMessage_eq]
    rw [sites_eq, List.mem_cons] at hs
    rcases hs with rfl | hs
    · refine ⟨⟨_, List.mem_append_left _ List.mem_cons_self, rfl, rfl⟩, fun e he => ?_,
        fun d hd => ?_⟩
      · have henum : DeclaredIn (ofEnums file proto3 (qualify scope name) path 4 enums) .enum _ :=
          declaredIn_ofEnums he
        exact henum.mono fun e he => List.mem_append_left _ (List.mem_append_right _ he)
      · exact (declaredIn_each hd).mono fun e he => List.mem_append_right _ he
    · refine (declaresSite_ofNested file proto3 _ path p 3 0 0 nested s hs).mono fun e he => ?_
      exact List.mem_append_left _ (List.mem_append_left _ (List.mem_append_right _ he))

theorem declaresSite_ofNested (file : String) (proto3 : Bool) (scope : String) (path p : List Int32)
    (field : Int32) (index i : Nat) : ∀ ms : List MessageDecl,
      ∀ s ∈ MessageDecl.nestedSites p scope i ms,
        DeclaresSite (ofNested file proto3 scope path field index ms) s
  | [] => by
    intro s hs
    rw [MessageDecl.nestedSites] at hs
    cases hs
  | m :: rest => by
    intro s hs
    rw [ofNested]
    rw [MessageDecl.nestedSites, List.mem_append] at hs
    rcases hs with hs | hs
    · exact (declaresSite_ofMessage file proto3 scope _ _ m s hs).mono
        fun e => List.mem_append_left _
    · exact (declaresSite_ofNested file proto3 scope path p field (index + 1) (i + 1) rest s
        hs).mono fun e => List.mem_append_right _

end

theorem declaresSite_ofFile {s : MessageSite} (hs : s ∈ f.sites) : DeclaresSite (ofFile f) s := by
  have hall : ∀ ms index, ∀ s ∈ (ms.zipIdx index).flatMap (fun p : MessageDecl × Nat =>
      p.1.sites [4, Int32.ofNat p.2] f.scope),
        DeclaresSite (ofNested f.name f.isProto3 f.scope [] 4 index ms) s := by
    intro ms
    induction ms with
    | nil => exact fun _ _ hs => by cases hs
    | cons m ms ih =>
      intro index s hs
      rw [ofNested]
      rw [List.zipIdx_cons, List.flatMap_cons, List.mem_append] at hs
      rcases hs with hs | hs
      · exact (declaresSite_ofMessage _ _ _ _ _ m s hs).mono fun e => List.mem_append_left _
      · exact (ih (index + 1) s hs).mono fun e => List.mem_append_right _
  refine (hall f.messages 0 s hs).mono fun e he => ?_
  simp only [ofFile, List.mem_append]
  exact .inl (.inl (.inl (.inr he)))

theorem declaredIn_messageNames (h : name ∈ messageNames f) :
    DeclaredIn (ofFile f) .message name := by
  obtain ⟨s, hs, rfl⟩ := List.mem_map.mp h
  exact (declaresSite_ofFile hs).message

theorem declaredIn_enumTypes (h : name ∈ (enumTypes f).map (·.name)) :
    DeclaredIn (ofFile f) .enum name := by
  have hnames : (enumTypes f).map (·.name) = (Schema.enumsOf f).map (·.1) := by
    rw [enumTypes, List.map_map]
    rfl
  obtain ⟨⟨n, e⟩, he, rfl⟩ := List.mem_map.mp (hnames ▸ h)
  rcases List.mem_append.mp he with he | he
  · obtain ⟨_, hk, heq⟩ := List.mem_map.mp he
    obtain ⟨rfl, rfl⟩ := Prod.mk.inj heq
    have henum : DeclaredIn (ofEnums f.name f.isProto3 f.scope [] 5 f.enums) .enum _ :=
      declaredIn_ofEnums hk
    refine henum.mono fun e he => ?_
    simp only [ofFile, List.mem_append]
    exact .inl (.inl (.inr he))
  · obtain ⟨s, hs, he⟩ := List.mem_flatMap.mp he
    obtain ⟨_, hk, heq⟩ := List.mem_map.mp he
    obtain ⟨rfl, rfl⟩ := Prod.mk.inj heq
    exact (declaresSite_ofFile hs).enum _ hk

theorem declaredIn_extensionNames (h : name ∈ extensionNames f) :
    DeclaredIn (ofFile f) .extension name := by
  rcases List.mem_append.mp h with h | h
  · obtain ⟨d, hd, rfl⟩ := List.mem_map.mp h
    have hone : DeclaredIn (each f.name .extension f.scope [] 7 FieldDecl.name f.extensions)
        .extension _ := declaredIn_each hd
    refine hone.mono fun e he => ?_
    simp only [ofFile, List.mem_append]
    exact .inr he
  · obtain ⟨s, hs, h⟩ := List.mem_flatMap.mp h
    obtain ⟨d, hd, rfl⟩ := List.mem_map.mp h
    exact (declaresSite_ofFile hs).extension d hd

/-- Files whose names go together share none, packages apart. -/
theorem Names.Fit.disjoint (hf : Names.Fit files) {names : FileDecl → List String}
    (hsort : sort ≠ .package)
    (hn : ∀ f name, name ∈ names f → DeclaredIn (ofFile f) sort name) :
    files.Pairwise fun f g => (names f).Disjoint (names g) := by
  have happart := hf.apart
  rw [entered, List.filterMap_flatMap, List.pairwise_flatMap] at happart
  refine happart.2.imp fun {f g} hfg => ?_
  intro name hname hother
  obtain ⟨s, hs, rfl, rfl⟩ := hn f name hname
  obtain ⟨t, ht, -, he⟩ := hn g _ hother
  exact hsort (hfg s (mem_entered_iff.mpr hs) t (mem_entered_iff.mpr ht) he.symm).1

end Declared

section Kept

variable {α β : Type} {P : α → Prop} {Q : β → Prop} {x : OptionReader α} {f : α → OptionReader β}
  {C : OptionContext} {scope file : String} {path : List Int32}

/-- Whatever was found on the way, what is read has the property. -/
def Always (P : α → Prop) (x : OptionReader α) : Prop := ∀ n, P (x.run n).1

namespace Always

theorem pure {a : α} (h : P a) : Always P (Pure.pure a) := fun _ => h

theorem bind (hx : Always P x) (hf : ∀ a, P a → Always Q (f a)) : Always Q (x >>= f) :=
  fun n => hf _ (hx n) _

theorem then_ (hf : ∀ a, Always Q (f a)) : Always Q (x >>= f) := fun _ => hf _ _

theorem mapM {γ : Type} {R : γ → β → Prop} {f : γ → OptionReader β} {l : List γ}
    (h : ∀ c ∈ l, Always (R c) (f c)) : Always (List.Forall₂ R l) (l.mapM f) := by
  induction l with
  | nil => exact pure .nil
  | cons c l ih =>
    obtain ⟨hc, hl⟩ := List.forall_mem_cons.mp h
    rw [List.mapM_cons]
    exact hc.bind fun b hb => (ih hl).bind fun bs hbs => pure (.cons hb hbs)

theorem each {γ : Type} {R : γ → γ → Prop} {field : Int32} {items : List γ}
    {f : List Int32 → γ → OptionReader γ} (h : ∀ path c, Always (R c) (f path c)) :
    Always (List.Forall₂ R items) (OptionReader.each path field items f) := by
  have hall : Always (List.Forall₂ (fun p b => R p.1 b) items.zipIdx)
      (OptionReader.each path field items f) := mapM fun p _ => h _ p.1
  intro n
  have hn := hall n
  rwa [← List.forall₂_map_left_iff, List.zipIdx_map_fst] at hn

end Always

open OptionReader

theorem readField_name (path : List Int32) (d : FieldDecl) :
    Always (fun k => d.name = k.name) (readField C scope file path d) :=
  .then_ fun _ => .pure rfl

theorem readEnum_head (path : List Int32) (e : EnumDecl) :
    Always (fun k => enumHead e = enumHead k) (readEnum C scope file path e) := by
  have hvalue : ∀ path (v : EnumValueDecl), Always
      (fun w : EnumValueDecl => (v.name, v.number) = (w.name, w.number)) (do
        let options ← read C scope file "EnumValueOptions" (path ++ [3]) v.options
        Pure.pure { v with options }) := fun _ _ => .then_ fun _ => .pure rfl
  refine .then_ fun _ => (Always.each hvalue).bind fun vs hvs => .pure ?_
  rw [enumHead, enumHead, map_eq_of_forall₂ hvs]

mutual

theorem readMessage_sites (C : OptionContext) (scope file : String) (path : List Int32) :
    ∀ m : MessageDecl, Always (SameSites m) (readMessage C scope file path m)
  | ⟨name, fields, nested, enums, ranges, extensions, options, oneofs, reserved, names⟩ => by
    rw [readMessage]
    refine .then_ fun _ => .then_ fun _ => .then_ fun _ => .then_ fun _ => ?_
    refine (readMessages_sites C _ file path 3 0 nested).bind fun _ hnested => ?_
    refine (Always.each (readEnum_head)).bind fun _ henums => ?_
    refine (Always.each (readField_name)).bind fun _ hextensions => .pure ?_
    exact sameSites_of rfl (map_eq_of_forall₂ henums).symm (map_eq_of_forall₂ hextensions).symm
      hnested

theorem readMessages_sites (C : OptionContext) (scope file : String) (path : List Int32)
    (field : Int32) (index : Nat) : ∀ ms : List MessageDecl,
      Always (List.Forall₂ SameSites ms) (readMessages C scope file path field index ms)
  | [] => by
    rw [readMessages]
    exact .pure .nil
  | m :: rest => by
    rw [readMessages]
    exact (readMessage_sites C scope file _ m).bind fun _ hm =>
      (readMessages_sites C scope file path field (index + 1) rest).bind fun _ hrest =>
        .pure (.cons hm hrest)

end

/-- Reading options leaves names alone. -/
theorem readFile_sameNames (C : OptionContext) (f : FileDecl) :
    Always (SameNames f) (readFile C f) := by
  refine .then_ fun _ => (readMessages_sites C _ _ _ _ _ _).bind fun _ hmessages => ?_
  refine (Always.each readEnum_head).bind fun _ henums => .then_ fun _ => ?_
  refine (Always.each readField_name).bind fun _ hextensions => .pure ?_
  exact ⟨rfl, (map_eq_of_forall₂ henums).symm, (map_eq_of_forall₂ hextensions).symm,
    fileSites_same rfl hmessages⟩

mutual

theorem resolveMessage_sites (V : View) (scope : String) :
    ∀ m : MessageDecl, SameSites m (resolveMessage V scope m)
  | ⟨name, fields, nested, enums, ranges, extensions, options, oneofs, reserved, names⟩ => by
    rw [resolveMessage]
    refine sameSites_of rfl rfl ?_ (resolveMessages_sites V _ nested)
    rw [List.map_map]
    rfl

theorem resolveMessages_sites (V : View) (scope : String) :
    ∀ ms : List MessageDecl, List.Forall₂ SameSites ms (resolveMessages V scope ms)
  | [] => by
    rw [resolveMessages]
    exact .nil
  | m :: rest => by
    rw [resolveMessages]
    exact .cons (resolveMessage_sites V scope m) (resolveMessages_sites V scope rest)

end

/-- Resolving names leaves those that are declared alone. -/
theorem resolveFile_sameNames (V : View) (f : FileDecl) : SameNames f (resolveFile V f) where
  scope := rfl
  enums := rfl
  extensions := by
    rw [resolveFile, List.map_map]
    rfl
  sites := fileSites_same rfl (resolveMessages_sites V f.scope f.messages)

end Kept

end DescriptorKit.Pool
