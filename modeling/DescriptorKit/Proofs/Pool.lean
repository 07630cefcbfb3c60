import DescriptorKit.Pool.Basic
import DescriptorKit.Proofs.Except
import DescriptorKit.Proofs.Schema

/-!
Pools take only files whose messages number their fields apart, so the schema of a pool is regular;
and only files whose imports they hold.
-/
namespace DescriptorKit
open Pool

namespace MessageDecl

variable {V : View} {C : Schema.Context} {ms : List MessagePlace} {file scope name : String}
  {path : List Int32} {field : Int32} {index : Nat} {m : MessageDecl} {nested : List MessageDecl}

/-- A message without findings numbers its fields apart. -/
theorem fields_numbered (h : fieldFindings V C file name path m = []) :
    (m.fields.map fun d => d.number.toInt.toNat).Nodup := by
  have hmem : ∀ i (hi : i < m.fields.length), 1 ≤ m.fields[i].number.toInt ∧
      ∀ j (hl : j < m.fields.length), j < i → m.fields[j].number ≠ m.fields[i].number := by
    intro i hi
    have hat : (m.fields[i], i) ∈ m.fields.zipIdx :=
      List.mem_zipIdx_iff_getElem?.mpr (List.getElem?_eq_getElem hi)
    have hnone := List.flatMap_eq_nil_iff.mp h _ hat
    simp only [List.append_eq_nil_iff] at hnone
    obtain ⟨⟨⟨⟨hnum, -⟩, -⟩, hsame⟩, -⟩ := hnone
    constructor
    · simp only [numberFindings, List.append_eq_nil_iff, ite_eq_right_iff,
        List.cons_ne_nil, imp_false, Bool.not_eq_true] at hnum
      have hbad := hnum.1.1
      simp only [badFieldNumber, Bool.or_eq_false_iff, decide_eq_false_iff_not] at hbad
      omega
    · intro j hl hj heq
      unfold sameNumber at hsame
      split at hsame
      · rename_i hfind
        have hj' : (m.fields[j], j) ∈ (m.fields.take i).zipIdx := by
          refine List.mem_zipIdx_iff_getElem?.mpr ?_
          rw [List.getElem?_take, if_pos hj]
          exact List.getElem?_eq_getElem _
        have := List.find?_eq_none.mp hfind _ hj'
        simp [heq] at this
      · cases hsame
  rw [List.Nodup, List.pairwise_iff_getElem]
  intro j i hj hi hlt
  simp only [List.length_map] at hj hi
  simp only [List.getElem_map]
  intro heq
  obtain ⟨hi₁, hne⟩ := hmem i hi
  obtain ⟨hj₁, -⟩ := hmem j hj
  exact hne j hj hlt (Int32.toInt_inj.mp (by omega))

mutual

theorem numbered_of_messageFindings (V : View) (C : Schema.Context) (ms : List MessagePlace)
    (file scope : String) (path : List Int32) :
    ∀ m : MessageDecl, messageFindings V C ms file scope path m = [] → m.Numbered
  | ⟨name, fields, nested, enums, _, extensions, _, _, _, _⟩, h => by
    rw [messageFindings] at h
    simp only [List.append_eq_nil_iff] at h
    obtain ⟨⟨⟨hfields, hnested⟩, -⟩, -⟩ := h
    rw [Numbered]
    exact ⟨fields_numbered hfields,
      allNumbered_of_nestedFindings V C ms file _ path 3 0 nested hnested⟩

theorem allNumbered_of_nestedFindings (V : View) (C : Schema.Context) (ms : List MessagePlace)
    (file scope : String) (path : List Int32) (field : Int32) (index : Nat) :
    ∀ nested : List MessageDecl,
      nestedFindings V C ms file scope path field index nested = [] → AllNumbered nested
  | [], _ => by
    rw [AllNumbered]
    trivial
  | m :: rest, h => by
    rw [nestedFindings, List.append_eq_nil_iff] at h
    rw [AllNumbered]
    exact ⟨numbered_of_messageFindings V C ms file scope _ m h.1,
      allNumbered_of_nestedFindings V C ms file scope path field (index + 1) rest h.2⟩

end

mutual

/-- Resolving names leaves numbers alone. -/
theorem Numbered.resolve (V : View) (scope : String) :
    ∀ m : MessageDecl, m.Numbered → (resolveMessage V scope m).Numbered
  | ⟨name, fields, nested, _, _, _, _, _, _, _⟩, h => by
    rw [Numbered] at h
    rw [resolveMessage, Numbered, List.map_map]
    exact ⟨h.1, AllNumbered.resolve V _ nested h.2⟩

theorem AllNumbered.resolve (V : View) (scope : String) :
    ∀ nested : List MessageDecl, AllNumbered nested → AllNumbered (resolveMessages V scope nested)
  | [], _ => by
    rw [resolveMessages, AllNumbered]
    trivial
  | m :: rest, h => by
    rw [AllNumbered] at h
    rw [resolveMessages, AllNumbered]
    exact ⟨Numbered.resolve V scope m h.1, AllNumbered.resolve V scope rest h.2⟩

end

end MessageDecl

namespace Pool

variable {P Q : Pool} {files : List FileDecl} {added : List Added} {f : FileDecl}

theorem first_eq_ok {findings : List Finding} {u : Unit} (h : first findings = .ok u) :
    findings = [] := by
  unfold first at h
  split at h
  · rename_i hl
    exact List.getLast?_eq_none_iff.mp hl
  · cases h

theorem numbered_of_fileFindings {symbols : List Symbol} {C : Schema.Context}
    {ms : List MessagePlace} (h : fileFindings symbols files C ms f = []) : f.Numbered := by
  unfold fileFindings at h
  simp only [List.append_eq_nil_iff] at h
  obtain ⟨⟨⟨⟨-, hnested⟩, -⟩, -⟩, -⟩ := h
  exact MessageDecl.allNumbered_of_nestedFindings _ _ _ _ _ _ _ _ _ hnested

theorem resolveFile_numbered (V : View) (h : f.Numbered) : (resolveFile V f).Numbered :=
  MessageDecl.AllNumbered.resolve V _ f.messages h

/-- A pool that grew numbers fields apart where it did before. -/
theorem extend_numbered (hP : ∀ f ∈ P.unread, f.Numbered) (h : P.extend files = .ok (Q, added)) :
    ∀ f ∈ Q.unread, f.Numbered := by
  unfold extend at h
  obtain ⟨-, -, h⟩ := bind_eq_ok_iff.mp h
  obtain ⟨u, hfind, h⟩ := bind_eq_ok_iff.mp h
  obtain ⟨added', -, h⟩ := bind_eq_ok_iff.mp h
  obtain ⟨rfl, -⟩ := Prod.mk.inj (Except.ok.inj h)
  have hnone := List.reverse_eq_nil_iff.mp (first_eq_ok hfind)
  intro f hf
  rcases List.mem_append.mp hf with hf | hf
  · exact hP f hf
  · obtain ⟨g, hg, rfl⟩ := List.mem_map.mp hf
    exact resolveFile_numbered _
      (numbered_of_fileFindings (List.flatMap_eq_nil_iff.mp hnone g hg))

/-- The schema of a pool that was made at once. -/
theorem schema_regular (h : extend {} files = .ok (P, added)) : P.schema.Regular :=
  Schema.ofFilesIn_regular _ (extend_numbered (fun _ hf => by cases hf) h)

/-- The heads of a file: how it is called, and what it imports. -/
structure SameHead (f g : FileDecl) : Prop where
  name : g.name = f.name
  dependencies : g.dependencies = f.dependencies

theorem readFile_sameHead (C : OptionContext) (f : FileDecl) (notes : OptionNotes) :
    SameHead f ((OptionReader.readFile C f).run notes).1 := ⟨rfl, rfl⟩

theorem resolveFile_sameHead (V : View) (f : FileDecl) : SameHead f (resolveFile V f) := ⟨rfl, rfl⟩

theorem SameHead.trans {f g k : FileDecl} (h : SameHead f g) (h' : SameHead g k) : SameHead f k :=
  ⟨h'.name.trans h.name, h'.dependencies.trans h.dependencies⟩

theorem imports_of_fileFindings {symbols : List Symbol} {C : Schema.Context}
    {ms : List MessagePlace} (h : fileFindings symbols files C ms f = []) :
    ∀ d ∈ f.dependencies, ∃ g ∈ files, g.name = d := by
  unfold fileFindings importFindings at h
  simp only [List.append_eq_nil_iff, List.filterMap_eq_nil_iff] at h
  obtain ⟨⟨⟨⟨⟨himports, -⟩, -⟩, -⟩, -⟩, -⟩ := h
  intro d hd
  obtain ⟨i, hi, rfl⟩ := List.getElem_of_mem hd
  have := himports (f.dependencies[i], i) (List.mk_mem_zipIdx_iff_getElem?.mpr (by simp [hi]))
  by_contra hnone
  simp [hnone] at this

theorem readOptions_sameHead (h : P.readOptions files = .ok added) :
    List.Forall₂ (fun f (a : Added) => SameHead f a.file) files added := by
  rw [readOptions] at h
  split at h
  · cases h
  · obtain rfl := Except.ok.inj h
    rw [List.map_map, List.forall₂_map_right_iff, List.forall₂_same]
    exact fun f _ => readFile_sameHead _ f {}

/-- A pool takes a file once, and then holds its imports. -/
theorem extend_cases (h : P.extend [f] = .ok (Q, added)) :
    ((∃ g ∈ P.files, g.name = f.name) ∧ Q.files = P.files ∧ added = []) ∨
    ∃ a, added = [a] ∧ Q.files = P.files ++ [a.file] ∧ SameHead f a.file ∧
      ∀ d ∈ f.dependencies, ∃ g ∈ Q.files, g.name = d := by
  unfold extend at h
  obtain ⟨-, -, h⟩ := bind_eq_ok_iff.mp h
  obtain ⟨u, hfind, h⟩ := bind_eq_ok_iff.mp h
  obtain ⟨added', hadded, h⟩ := bind_eq_ok_iff.mp h
  obtain ⟨rfl, rfl⟩ := Prod.mk.inj (Except.ok.inj h)
  have hnone := List.reverse_eq_nil_iff.mp (first_eq_ok hfind)
  have hheads := readOptions_sameHead hadded
  by_cases hf : ∃ g ∈ P.files, g.name = f.name
  · have hnew : [f].filter (fun f => !P.files.any (·.name = f.name)) = [] := by simpa using hf
    rw [hnew] at hheads
    obtain rfl := List.forall₂_nil_left_iff.mp hheads
    exact .inl ⟨hf, by simp, rfl⟩
  · have hnew : [f].filter (fun f => !P.files.any (·.name = f.name)) = [f] := by simpa using hf
    rw [hnew] at hheads hnone
    obtain ⟨a, _, hhead, hrest, rfl⟩ := List.forall₂_cons_left_iff.mp hheads
    obtain rfl := List.forall₂_nil_left_iff.mp hrest
    have hsame := (resolveFile_sameHead _ f).trans hhead
    refine .inr ⟨a, rfl, rfl, hsame, fun d hd => ?_⟩
    obtain ⟨g, hg, rfl⟩ := imports_of_fileFindings (by simpa using hnone) d hd
    rcases List.mem_append.mp hg with hg | hg
    · exact ⟨g, List.mem_append_left _ hg, rfl⟩
    · obtain rfl := List.mem_singleton.mp hg
      exact ⟨a.file, by simp, hsame.name⟩

end Pool
end DescriptorKit
