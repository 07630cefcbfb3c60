import DescriptorKit.Proofs.Image.Files
import DescriptorKit.Proofs.Managed.Run
import DescriptorKit.Proofs.Reparse

/-!
Modifying an image changes descriptors and nothing else. The files keep their paths and their
imports, whether the pass succeeds or not, so what holds of every image goes on to hold.
-/
namespace DescriptorKit
open Descriptor

/-- Nothing of a file has changed but its descriptor, which tells the same structure. -/
structure ImageFile.Changed (f g : ImageFile) : Prop where
  file : g = { f with descriptor := g.descriptor }
  descriptor : f.descriptor.Follows g.descriptor

namespace ImageFile

variable {f g : ImageFile}

theorem Changed.valid (h : Changed f g) (hs : SameStructure f.descriptor g.descriptor)
    (hv : f.Valid) : g.Valid := by
  have hpath : g.path = f.path := hs.name
  have hdeps : g.dependencies = f.dependencies := hs.dependencies
  have hunused : g.unused = f.unused := by rw [h.file]
  constructor
  · rw [hpath]
    exact hv.normal
  · rw [h.file]
    exact hv.module_of_commit
  · rw [hunused, hdeps]
    exact hv.unused_lt
  · intro i hi
    rw [hs.isPublic i]
    exact hv.unused_private i (hunused ▸ hi)
  · rw [hunused]
    exact hv.unused_ascending

end ImageFile

namespace Managed

variable {C : Config} {I : Image} {R : Descriptor → Descriptor → Prop}

/-- Under one path, two files that differ at most in their descriptors, the one's being related to
the other's. -/
structure Carried (R : Descriptor → Descriptor → Prop) (e e' : String × ImageFile) : Prop where
  path : e'.1 = e.1
  file : e'.2 = { e.2 with descriptor := e'.2.descriptor }
  descriptor : R e.2.descriptor e'.2.descriptor

theorem Carries.refl_entry (h : Carries R) (e : String × ImageFile) : Carried R e e :=
  ⟨rfl, rfl, h.refl _⟩

theorem Carries.trans_entry (h : Carries R) {e e' e'' : String × ImageFile} (he : Carried R e e')
    (he' : Carried R e' e'') : Carried R e e'' where
  path := he'.path.trans he.path
  file := by rw [he'.file, he.file]
  descriptor := h.trans he.descriptor he'.descriptor

theorem modifyFiles_carried (h : Carries R) (C : Config) (entries : List (String × ImageFile)) :
    List.Forall₂ (fun e m => Carried R e m.1) entries (modifyFiles C entries).1 := by
  induction entries with
  | nil => exact .nil
  | cons e rest ih =>
    obtain ⟨path, f⟩ := e
    rw [modifyFiles]
    split
    · exact .cons (h.refl_entry _) ih
    · have hrun := modifyFile_carried h C { file := f }
      split
      · rename_i err p hp
        have hp' : Modifying.runOn (modifyFile C) { file := f } = (.error err, p) := hp
        rw [hp'] at hrun
        refine .cons ⟨rfl, hrun.file, hrun.descriptor⟩ ?_
        rw [List.forall₂_map_right_iff]
        exact List.forall₂_same.mpr fun e _ => h.refl_entry e
      · rename_i p hp
        have hp' : Modifying.runOn (modifyFile C) { file := f } = (.ok (), p) := hp
        rw [hp'] at hrun
        exact .cons ⟨rfl, hrun.file, hrun.descriptor⟩ ih

theorem sweepFile_carried (h : Carries R) (m : Marked) : Carried R m.1 (sweepFile m).1 := by
  obtain ⟨⟨path, f⟩, marks⟩ := m
  rw [sweepFile]
  split
  · exact h.refl_entry _
  · exact ⟨rfl, rfl, h.removeLocations f.descriptor marks⟩

/-- The files before and after a pass, one by one. -/
theorem modify_carried (h : Carries R) (I : Image) (C : Config) :
    List.Forall₂ (Carried R) I.entries (modify I C).1.entries := by
  have hswept : List.Forall₂ (Carried R) I.entries
      (((modifyFiles C I.entries).1.map sweepFile).map (·.1)) := by
    rw [List.map_map, List.forall₂_map_right_iff]
    exact (modifyFiles_carried h C I.entries).imp fun e m hm =>
      h.trans_entry hm (sweepFile_carried h m)
  unfold modify
  split
  · exact List.forall₂_same.mpr fun e _ => h.refl_entry e
  · dsimp only
    split
    · exact hswept
    · split <;> exact hswept

theorem modify_changed (I : Image) (C : Config) :
    List.Forall₂ (fun e e' => e'.1 = e.1 ∧ e.2.Changed e'.2) I.entries (modify I C).1.entries :=
  (modify_carried follows_carries I C).imp fun _ _ h => ⟨h.path, h.file, h.descriptor⟩

end Managed

namespace Image

variable {I J : Image}

/-- The typed messages of the files tell their structure. -/
def Kept (I : Image) : Prop := ∀ f ∈ I.files, f.descriptor.Kept

/-- The schemas that the descriptors of the files are held by are standard ones. -/
def Standard (I : Image) : Prop :=
  ∀ f ∈ I.files, Descriptor.Standard f.descriptor.schema f.descriptor.type

/-- Each file of one image is a changed file of the other. -/
abbrev Changed (I J : Image) : Prop :=
  List.Forall₂ (fun e e' => e'.1 = e.1 ∧ e.2.Changed e'.2) I.entries J.entries

theorem Changed.exists_entry (h : Changed I J) {e : String × ImageFile} (he : e ∈ J.entries) :
    ∃ e₀ ∈ I.entries, e.1 = e₀.1 ∧ e₀.2.Changed e.2 := exists_of_forall₂ h he

theorem Changed.exists_file (h : Changed I J) {g : ImageFile} (hg : g ∈ J.files) :
    ∃ f ∈ I.files, f.Changed g := by
  obtain ⟨e, he, rfl⟩ := List.mem_map.mp hg
  obtain ⟨e₀, he₀, -, hc⟩ := h.exists_entry he
  exact ⟨e₀.2, List.mem_map_of_mem he₀, hc⟩

theorem Changed.kept (h : Changed I J) (hk : I.Kept) : J.Kept := by
  intro g hg
  obtain ⟨f, hf, hc⟩ := h.exists_file hg
  exact hc.descriptor.kept (hk f hf)

theorem Changed.sameImports (h : Changed I J) (hk : I.Kept) (hs : I.Standard) :
    SameImports I.entries J.entries := by
  have hall : ∀ e ∈ I.entries, ∀ e' : String × ImageFile, e'.1 = e.1 ∧ e.2.Changed e'.2 →
      e'.1 = e.1 ∧ e'.2.dependencies = e.2.dependencies := by
    rintro e he e' ⟨hp, hc⟩
    have hmem : e.2 ∈ I.files := List.mem_map_of_mem he
    exact ⟨hp, (hc.descriptor.sameStructure (hk _ hmem) (hs _ hmem)).dependencies⟩
  exact List.forall₂_iff_get.mpr ⟨h.length_eq, fun i hi hi' =>
    hall _ (List.get_mem _ _) _ (h.get hi hi')⟩

/-- Changes to descriptors of a standard schema keep what holds of every image. -/
theorem Changed.valid (h : Changed I J) (hk : I.Kept) (hs : I.Standard) (hv : I.Valid) :
    J.Valid where
  keyed := by
    intro e he
    obtain ⟨e₀, he₀, hp, hc⟩ := h.exists_entry he
    have hmem : e₀.2 ∈ I.files := List.mem_map_of_mem he₀
    have hname := (hc.descriptor.sameStructure (hk _ hmem) (hs _ hmem)).name
    rw [hp, hv.keyed e₀ he₀]
    exact hname.symm
  distinct := by
    rw [show J.paths = I.paths from (h.sameImports hk hs).keys_eq]
    exact hv.distinct
  sound := by
    intro g hg
    obtain ⟨f, hf, hc⟩ := h.exists_file hg
    exact hc.valid (hc.descriptor.sameStructure (hk f hf) (hs f hf)) (hv.sound f hf)
  agree := by
    intro f hf g hg m hfm hgm
    obtain ⟨f₀, hf₀, hcf⟩ := h.exists_file hf
    obtain ⟨g₀, hg₀, hcg⟩ := h.exists_file hg
    have hfile : f.module = f₀.module ∧ f.commit = f₀.commit := by rw [hcf.file]; exact ⟨rfl, rfl⟩
    have hfile' : g.module = g₀.module ∧ g.commit = g₀.commit := by rw [hcg.file]; exact ⟨rfl, rfl⟩
    rw [hfile.2, hfile'.2]
    exact hv.agree f₀ hf₀ g₀ hg₀ m (hfile.1 ▸ hfm) (hfile'.1 ▸ hgm)

end Image
end DescriptorKit
