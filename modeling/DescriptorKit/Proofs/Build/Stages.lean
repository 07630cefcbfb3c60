import DescriptorKit.Build.Image
import DescriptorKit.Proofs.Except

/-!
A build that succeeds, stage by stage: the targets are read, then linked, and nothing is found wrong
with them; then the linked files are put together.
-/
namespace DescriptorKit.Build

variable {R : SourceReader} {options : BuildOptions} {I : Image}

theorem check_eq_ok_iff {s : Supply} : check s = .ok () ↔ s.failure = none := by
  rw [check]
  cases s.failure <;> simp

theorem compileError_eq_ok_iff {annotations : List Annotation} :
    compileError annotations = .ok () ↔ annotations = [] := by
  rw [compileError]
  cases annotations <;> simp

/-- What a build goes through that succeeds. -/
structure Stages (R : SourceReader) (options : BuildOptions) (targets : List String)
    (supply : Supply)
    (l : Linking) (I : Image) : Prop where
  normal : normalTargets R.targets = .ok targets
  nonempty : targets ≠ []
  read : (readTargets R targets).run {} = ([], supply)
  supplied : supply.failure = none
  linked : linkTargets R targets targets { supply } [] = .ok (l, [])
  checked : l.supply.failure = none
  assembled : assemble l.supply.origins targets options l.files = .ok I

theorem exists_stages (h : Image.build R options = .ok I) :
    ∃ targets supply l, Stages R options targets supply l I := by
  obtain ⟨targets, hnormal, h⟩ := bind_eq_ok_iff.mp h
  dsimp only at h
  split at h
  · cases h
  · rename_i hne
    split at h
    · cases h
    · obtain ⟨⟨⟩, hsupplied, h⟩ := bind_eq_ok_iff.mp h
      obtain ⟨⟨⟩, hclean, h⟩ := bind_eq_ok_iff.mp h
      obtain ⟨⟨l, annotations⟩, hlinked, h⟩ := bind_eq_ok_iff.mp h
      obtain ⟨⟨⟩, hchecked, h⟩ := bind_eq_ok_iff.mp h
      obtain ⟨⟨⟩, hclean', h⟩ := bind_eq_ok_iff.mp h
      obtain rfl := compileError_eq_ok_iff.mp hclean'
      refine ⟨targets, _, l, hnormal, by simpa using hne, ?_, check_eq_ok_iff.mp hsupplied, hlinked,
        check_eq_ok_iff.mp hchecked, h⟩
      exact Prod.ext (compileError_eq_ok_iff.mp hclean) rfl

end DescriptorKit.Build
