import DescriptorKit.Proofs.Image.Formed
import DescriptorKit.Proofs.Unused
import Mathlib.Data.List.Induction

/-!
Just the imports that lead to nothing in use are reported. What a file uses is told by the types it
refers to, each of which is supplied by the last file that declares it, and by the extensions it
sets; what an import leads to is told by public imports alone, cyclic or not.
-/
namespace DescriptorKit.Unused

variable {ds : List Descriptor} {d e : Descriptor} {a b file name : String} {i : Nat}
  {table : List (String × String)}

/-- A file is the last one that declares a type. -/
def Supplies (ds : List Descriptor) (name file : String) : Prop :=
  ∃ before e after, ds = before ++ e :: after ∧ e.name = file ∧ Declares e.decl name ∧
    ∀ c ∈ after, ¬ Declares c.decl name

/-- A file draws on another one: this supplies a type that it refers to, or declares an extension
that is set somewhere in it. -/
inductive Uses (ds : List Descriptor) (d : Descriptor) (file : String) : Prop
  | type (name : String) (hr : Refers d.decl name) (hs : Supplies ds name file)
    (hne : file ≠ d.name)
  | extension (h : SetsFrom file (.message d.message)) (hne : file ≠ d.name)

/-- The import at an index is public. A public index that is negative or out of range is that of no
import. -/
def PublicAt (d : Descriptor) (i : Nat) : Prop :=
  ∃ p ∈ d.decl.publicDependencies, p.toInt = i

def ImportsPublicly (ds : List Descriptor) (a b : String) : Prop :=
  ∃ d ∈ ds, d.name = a ∧ ∃ i, PublicAt d i ∧ d.dependencies[i]? = some b

theorem isPublic_iff : d.isPublic i = true ↔ PublicAt d i := by
  have hdecl : d.decl.publicDependencies = d.typed.intsAt 10 := rfl
  rw [Descriptor.isPublic, List.any_eq_true, PublicAt, hdecl]
  simp only [Bool.and_eq_true, decide_eq_true_eq]
  refine exists_congr fun p => and_congr_right fun _ => and_iff_right_of_imp fun h => ?_
  omega

theorem handsOn_nil (self : String) : HandsOn ds self [] = ImportsPublicly ds := by
  funext a b
  simp [HandsOn, ImportsPublicly, isPublic_iff]

section Supply

theorem Supplies.declares (h : Supplies ds name file) : ∃ e ∈ ds, Declares e.decl name := by
  obtain ⟨before, e, after, rfl, -, he, -⟩ := h
  exact ⟨e, by simp, he⟩

/-- One more file supplies all that it declares. -/
theorem supplies_concat_iff : Supplies (ds ++ [e]) name file ↔
    (Declares e.decl name ∧ e.name = file) ∨ (¬ Declares e.decl name ∧ Supplies ds name file) := by
  constructor
  · rintro ⟨before, c, after, hs, hn, hc, hafter⟩
    rcases List.eq_nil_or_concat' after with rfl | ⟨after, c', rfl⟩
    · obtain ⟨rfl, he⟩ := List.append_inj' hs rfl
      obtain rfl := List.singleton_inj.mp he
      exact Or.inl ⟨hc, hn⟩
    · rw [← List.cons_append, ← List.append_assoc] at hs
      obtain ⟨rfl, he⟩ := List.append_inj' hs rfl
      obtain rfl := List.singleton_inj.mp he
      exact Or.inr ⟨hafter e (by simp), before, c, after, rfl, hn, hc,
        fun c hc => hafter c (by simp [hc])⟩
  · rintro (⟨he, hn⟩ | ⟨he, before, c, after, rfl, hn, hc, hafter⟩)
    · exact ⟨ds, e, [], rfl, hn, he, by simp⟩
    · refine ⟨before, c, after ++ [e], by simp, hn, hc, fun c hc => ?_⟩
      rcases List.mem_append.mp hc with hc | hc
      · exact hafter c hc
      · exact List.mem_singleton.mp hc ▸ he

theorem find?_symbols_concat (ds : List Descriptor) (e : Descriptor) (name : String) :
    (symbols (withDecls (ds ++ [e]))).find? (·.1 = name) =
      if name ∈ declared e.decl then some (name, e.name)
      else (symbols (withDecls ds)).find? (·.1 = name) := by
  have hown : ((declared e.decl).map fun t => (t, e.name)).reverse.find? (·.1 = name) =
      if name ∈ declared e.decl then some (name, e.name) else none := by
    split
    case isTrue h =>
      cases hf : ((declared e.decl).map fun t => (t, e.name)).reverse.find? (·.1 = name) with
      | none => simpa [h] using List.find?_eq_none.mp hf (name, e.name)
      | some p =>
        have hp : p.1 = name := by simpa using List.find?_some hf
        have hm := List.mem_of_find?_eq_some hf
        simp only [List.mem_reverse, List.mem_map] at hm
        obtain ⟨t, -, rfl⟩ := hm
        rw [← hp]
    case isFalse h =>
      rw [List.find?_eq_none]
      rintro p hp
      simp only [List.mem_reverse, List.mem_map] at hp
      obtain ⟨t, ht, rfl⟩ := hp
      simpa using fun he : t = name => h (he ▸ ht)
  have hsplit : symbols (withDecls (ds ++ [e])) =
      ((declared e.decl).map fun t => (t, e.name)).reverse ++ symbols (withDecls ds) := by
    simp [symbols, withDecls]
  rw [hsplit, List.find?_append, hown]
  split <;> simp

theorem find?_symbols_iff :
    (symbols (withDecls ds)).find? (·.1 = name) = some (name, file) ↔ Supplies ds name file := by
  induction ds using List.reverseRecOn with
  | nil => simp [symbols, withDecls, Supplies]
  | append_singleton ds e ih =>
    rw [find?_symbols_concat, supplies_concat_iff, ← ih, ← mem_declared_iff]
    split <;> simp [*]

theorem mem_usedFiles_iff :
    file ∈ usedFiles (symbols (withDecls ds)) d d.decl ↔ Uses ds d file := by
  have hname (p : String × String) (n : String)
      (h : (symbols (withDecls ds)).find? (·.1 = n) = some p) : p.1 = n := by
    simpa using List.find?_some h
  rw [usedFiles, List.mem_filter, List.mem_append, List.mem_filterMap, decide_eq_true_eq]
  constructor
  · rintro ⟨⟨name, hr, hf⟩ | hs, hne⟩
    · obtain ⟨p, hp, rfl⟩ := Option.map_eq_some_iff.mp hf
      obtain rfl := hname p name hp
      have hsupplies : Supplies ds p.1 p.2 := find?_symbols_iff.mp hp
      obtain ⟨e, -, he⟩ := hsupplies.declares
      exact .type p.1 ((mem_references_iff he.ne_empty).mp hr) hsupplies hne
    · exact .extension (mem_extensionFiles_iff.mp (by rwa [extensionFiles])) hne
  · rintro (⟨name, hr, hs, hne⟩ | ⟨h, hne⟩)
    · obtain ⟨e, -, he⟩ := hs.declares
      refine ⟨Or.inl ⟨name, (mem_references_iff he.ne_empty).mpr hr, ?_⟩, hne⟩
      rw [find?_symbols_iff.mpr hs]
      rfl
    · refine ⟨Or.inr ?_, hne⟩
      have := mem_extensionFiles_iff.mpr h
      rwa [extensionFiles] at this

end Supply

section Report

theorem indexes_getElem? {k : Nat} (hk : ds[k]? = some d) : (indexes ds)[k]? =
    some (indexesOf (withDecls ds) (symbols (withDecls ds)) d d.decl) := by
  have hi : indexes ds = (withDecls ds).map fun p =>
    indexesOf (withDecls ds) (symbols (withDecls ds)) p.1 p.2 := rfl
  rw [hi, List.getElem?_map, withDecls, List.getElem?_map, hk]
  rfl

/-- What is reported stands in the order of the imports. -/
theorem indexesOf_ascending (d : Descriptor) (table : List (String × String)) :
    (indexesOf (withDecls ds) table d d.decl).Pairwise (· < ·) := by
  have hsub : (indexesOf (withDecls ds) table d d.decl).Sublist
      (List.range d.dependencies.length) := by
    have := (List.filter_sublist (l := d.dependencies.zipIdx) (p := fun p => !d.isPublic p.2 &&
      !(reachable (handedOn (withDecls ds)) ((withDecls ds).map (·.1.name)) [p.1]).any
        (· ∈ usedFiles table d d.decl))).map (·.2)
    simpa [indexesOf, List.range_eq_range'] using this
  exact List.pairwise_lt_range.sublist hsub

theorem mem_reported_iff (hd : (ds.map (·.name)).Nodup) :
    i ∈ indexesOf (withDecls ds) (symbols (withDecls ds)) d d.decl ↔
      ∃ name, d.dependencies[i]? = some name ∧ ¬ PublicAt d i ∧
        ∀ file, Relation.ReflTransGen (ImportsPublicly ds) name file → ¬ Uses ds d file := by
  rw [mem_indexesOf_iff hd, handsOn_nil]
  simp only [← isPublic_iff, Bool.not_eq_true, mem_usedFiles_iff]
  refine exists_congr fun name => and_congr_right fun _ => and_congr_right fun _ => ?_
  exact ⟨fun h file hr hu => h file hu hr, fun h file hu hr => h file hr hu⟩

end Report

section Order

variable {es : List Descriptor} {S : Schema}

/-- No two files declare a type of the same name. -/
def Undisputed (ds : List Descriptor) : Prop :=
  ds.Pairwise fun d e => ∀ name, Declares d.decl name → ¬ Declares e.decl name

theorem undisputed_iff : Undisputed ds ↔
    ds.Pairwise fun d e => ∀ name ∈ declared d.decl, name ∉ declared e.decl := by
  simp only [Undisputed, mem_declared_iff]

instance : Decidable (Undisputed ds) := decidable_of_iff _ undisputed_iff.symm

theorem Undisputed.perm (h : Undisputed ds) (hp : es.Perm ds) : Undisputed es :=
  (hp.pairwise_iff fun hde name he hd => hde name hd he).mpr h

/-- What files declare is told by their typed messages. -/
theorem Undisputed.congr (h : Undisputed ds) (ht : es.map (·.typed) = ds.map (·.typed)) :
    Undisputed es := by
  have htyped : (ds.map (·.typed)).Pairwise fun a b =>
      ∀ name, Declares (FileDecl.ofMessage a) name → ¬ Declares (FileDecl.ofMessage b) name :=
    List.pairwise_map.mpr h
  rw [← ht] at htyped
  exact List.pairwise_map.mp htyped

theorem supplies_iff (h : Undisputed ds) :
    Supplies ds name file ↔ ∃ e ∈ ds, e.name = file ∧ Declares e.decl name := by
  constructor
  · rintro ⟨before, e, after, rfl, hn, he, -⟩
    exact ⟨e, by simp, hn, he⟩
  · rintro ⟨e, hmem, hn, he⟩
    obtain ⟨before, after, rfl⟩ := List.append_of_mem hmem
    obtain ⟨-, hafter, -⟩ := List.pairwise_append.mp h
    exact ⟨before, e, after, rfl, hn, he,
      fun c hc hname => (List.pairwise_cons.mp hafter).1 c hc name he hname⟩

/-- Where no type is disputed, the same imports are reported in any order of the files, by whatever
schema their descriptors are held. -/
theorem indexesOf_perm (hd : (ds.map (·.name)).Nodup) (hu : Undisputed ds)
    (hp : es.Perm (ds.map fun d => { d with schema := S })) (d : Descriptor) :
    indexesOf (withDecls es) (symbols (withDecls es)) { d with schema := S } d.decl =
      indexesOf (withDecls ds) (symbols (withDecls ds)) d d.decl := by
  have hmem : ∀ P : Descriptor → Prop, (∃ e ∈ es, P e) ↔ ∃ d ∈ ds, P { d with schema := S } := by
    intro P
    simp only [hp.mem_iff, List.mem_map, exists_exists_and_eq_and]
  have hheld : Undisputed (ds.map fun d => { d with schema := S }) := List.pairwise_map.mpr hu
  have hu' : Undisputed es := hheld.perm hp
  have hd' : (es.map (·.name)).Nodup := by
    refine (hp.map _).nodup_iff.mpr ?_
    rw [List.map_map]
    exact hd
  have himports : ImportsPublicly es = ImportsPublicly ds := by
    funext a b
    exact propext (hmem _)
  have huses : ∀ file, Uses es { d with schema := S } file ↔ Uses ds d file := by
    have hsupplies : ∀ {name file}, Supplies es name file ↔ Supplies ds name file := by
      intro name file
      rw [supplies_iff hu', supplies_iff hu]
      exact hmem _
    intro file
    constructor
    · rintro (⟨name, hr, hs, hne⟩ | ⟨h, hne⟩)
      · exact .type name hr (hsupplies.mp hs) hne
      · exact .extension h hne
    · rintro (⟨name, hr, hs, hne⟩ | ⟨h, hne⟩)
      · exact .type name hr (hsupplies.mpr hs) hne
      · exact .extension h hne
  have hasc : (indexesOf (withDecls ds) (symbols (withDecls ds)) d d.decl).Pairwise (· < ·) :=
    indexesOf_ascending _ _
  have hasc' : (indexesOf (withDecls es) (symbols (withDecls es)) { d with schema := S }
    d.decl).Pairwise (· < ·) := indexesOf_ascending _ _
  refine List.Perm.eq_of_pairwise (fun a b _ _ hab hba => absurd hab (Nat.lt_asymm hba)) hasc' hasc
    ((List.perm_ext_iff_of_nodup (hasc'.imp Nat.ne_of_lt) (hasc.imp Nat.ne_of_lt)).mpr fun i => ?_)
  have hi := mem_reported_iff (d := { d with schema := S }) (i := i) hd'
  rw [himports] at hi
  simp only [huses] at hi
  exact hi.trans (mem_reported_iff (d := d) hd).symm

end Order

/-- Imports that are there and not public make no difference to whether there is a file, and are
kept as they are. -/
theorem ofParts_unused {p : ImageFile.Parts} {unused : List Nat}
    (hasc : unused.Pairwise (· < ·))
    (hok : ∀ i ∈ unused, i < p.descriptor.dependencies.length ∧ p.descriptor.isPublic i = false) :
    ImageFile.ofParts { p with unused } =
      (ImageFile.ofParts { p with unused := [] }).map fun f => { f with unused } := by
  have hnone : ascending [] = [] := rfl
  simp only [ImageFile.ofParts, ascending_of_pairwise hasc, hnone,
    ImageFile.badIndex?_eq_none_iff.mpr hok, ImageFile.badIndex?]
  split
  · rfl
  · split
    · rfl
    · split
      · rfl
      · split <;> rfl

/-- For each file just those imports are reported that are not public and lead to no file in use,
and a file that is made of the descriptor is made with them as it is without. -/
theorem indexes_exact (hd : (ds.map (·.name)).Nodup) :
    (indexes ds).length = ds.length ∧ ∀ (k : Nat) (d : Descriptor), ds[k]? = some d →
      ∃ unused, (indexes ds)[k]? = some unused ∧
        (∀ i, i ∈ unused ↔ ∃ name, d.dependencies[i]? = some name ∧ ¬ PublicAt d i ∧
          ∀ file, Relation.ReflTransGen (ImportsPublicly ds) name file → ¬ Uses ds d file) ∧
        ∀ p : ImageFile.Parts, p.descriptor = d → ImageFile.ofParts { p with unused } =
          (ImageFile.ofParts { p with unused := [] }).map fun f => { f with unused } := by
  refine ⟨by simp [indexes], fun k d hk => ?_⟩
  refine ⟨_, indexes_getElem? hk, fun i => mem_reported_iff hd, ?_⟩
  rintro p rfl
  refine ofParts_unused (indexesOf_ascending _ _) fun i hi => ?_
  obtain ⟨name, hname, hpublic, -⟩ := (mem_reported_iff hd).mp hi
  obtain ⟨hlt, -⟩ := List.getElem?_eq_some_iff.mp hname
  exact ⟨hlt, Bool.eq_false_iff.mpr fun h => hpublic (isPublic_iff.mp h)⟩

/-- Of the imports of `a.proto` in `reexport` the first one leads to nothing in use, the second one
to the file of a type. -/
theorem indexes_exact_reexport : (reexport.map (·.name)).Nodup ∧ ∃ a, reexport[4]? = some a ∧
    (∀ file, Relation.ReflTransGen (ImportsPublicly reexport) "d.proto" file →
      ¬ Uses reexport a file) ∧
    ∃ file, Relation.ReflTransGen (ImportsPublicly reexport) "b.proto" file ∧
      Uses reexport a file := by
  obtain ⟨hd, -, hi, -⟩ := reexport_facts
  have hfacts : ∃ a ∈ reexport[4]?, a.dependencies[0]? = some "d.proto" ∧
      a.dependencies[1]? = some "b.proto" ∧ a.isPublic 1 = false := by
    decide +kernel
  obtain ⟨a, ha, h0, h1, hp⟩ := hfacts
  obtain ⟨unused, hu, hiff, -⟩ := (indexes_exact hd).2 4 a ha
  obtain rfl : [0] = unused := Option.some.inj (hi.symm.trans hu)
  refine ⟨hd, a, ha, ?_, ?_⟩
  · obtain ⟨name, hn, -, hnone⟩ := (hiff 0).mp (by simp)
    obtain rfl := Option.some.inj (h0.symm.trans hn)
    exact hnone
  · by_contra h
    have hmem := (hiff 1).mpr ⟨"b.proto", h1, by simp [← isPublic_iff, hp],
      fun file hr hused => h ⟨file, hr, hused⟩⟩
    simp at hmem

end DescriptorKit.Unused
