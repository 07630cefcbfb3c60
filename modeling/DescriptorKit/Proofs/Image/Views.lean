import DescriptorKit.Proofs.Except
import DescriptorKit.Proofs.Image.Narrow

/-!
Views of related images. A view of an image looks at the paths of its files, their imports, modules
and commits, and at what is merely imported. Where the files of two images are the same in that, the
views of the images hold related files again.
-/
namespace DescriptorKit

/-- Two files that no view tells apart. -/
structure ImageFile.Same (f g : ImageFile) : Prop where
  path : g.path = f.path
  dependencies : g.dependencies = f.dependencies
  module : g.module = f.module
  commit : g.commit = f.commit
  isImport : g.isImport = f.isImport

/-- A relation between files that views keep. -/
structure Viewed (R : ImageFile → ImageFile → Prop) : Prop where
  same : ∀ {f g}, R f g → f.Same g
  withImport : ∀ {f g} (b : Bool), R f g → R (f.withImport b) (g.withImport b)

namespace Image

variable {R : ImageFile → ImageFile → Prop} {I J M : Image} {f g : ImageFile}
  {entries other merged next : List (String × ImageFile)} {fs more : List ImageFile}

/-- Entries under the same path hold related files. -/
abbrev Entry (R : ImageFile → ImageFile → Prop) (e e' : String × ImageFile) : Prop :=
  e'.1 = e.1 ∧ R e.2 e'.2

/-- The files of two images are related one by one. -/
abbrev Related (R : ImageFile → ImageFile → Prop) (I J : Image) : Prop :=
  List.Forall₂ (Entry R) I.entries J.entries

theorem Related.files (h : Related R I J) : List.Forall₂ R I.files J.files := by
  rw [Image.files, Image.files, List.forall₂_map_left_iff, List.forall₂_map_right_iff]
  exact h.imp fun _ _ he => he.2

theorem find?_related (h : List.Forall₂ (Entry R) entries other) (path : String) :
    Option.Rel (Entry R) (entries.find? (·.1 = path)) (other.find? (·.1 = path)) := by
  induction h with
  | nil => exact .none
  | @cons e e' _ _ he _ ih =>
    rw [List.find?_cons, List.find?_cons, he.1]
    by_cases hp : e.1 = path
    · simpa [hp] using he
    · simpa [hp] using ih

theorem Related.file? (h : Related R I J) (path : String) :
    Option.Rel R (I.file? path) (J.file? path) := by
  have hr := find?_related h path
  rw [Image.file?, Image.file?, Image.find?, Image.find?]
  generalize I.entries.find? _ = e, J.entries.find? _ = e' at hr ⊢
  cases hr with
  | none => exact .none
  | some he => exact .some he.2

section Order

theorem present_eq (h : SameImports entries other) : present other = present entries := by
  funext path
  have hsome : ∀ d, (find? other d).isSome = (find? entries d).isSome := fun d => by
    simpa using congrArg Option.isSome (h.find? d)
  have hp := h.find? path
  rw [present, present]
  cases hf : find? entries path with
  | none =>
    rw [hf, Option.map_none, Option.map_eq_none_iff] at hp
    rw [hp]
  | some f =>
    rw [hf, Option.map_some, Option.map_eq_some_iff] at hp
    obtain ⟨g, hg, hd⟩ := hp
    simp only [hg, hd, hsome]

theorem visit_eq (h : present other = present entries) : Walk.visit other = Walk.visit entries := by
  funext fuel
  induction fuel with
  | zero => rfl
  | succ fuel ih =>
    funext w path
    rw [Walk.visit, Walk.visit, h, ih]

theorem order_eq (h : SameImports entries other) : order other = order entries := by
  have hk : other.map (·.1) = entries.map (·.1) := h.keys_eq
  rw [order, order, visit_eq (present_eq h), h.length_eq, hk]

theorem sort_related (hR : ∀ {f g}, R f g → f.Same g) (h : List.Forall₂ (Entry R) entries other) :
    List.Forall₂ (Entry R) (sort entries) (sort other) := by
  have ha : SameImports entries other := h.imp fun _ _ he => ⟨he.1, (hR he.2).dependencies⟩
  rw [sort, sort, order_eq ha]
  refine List.rel_filterMap (R := Eq) ?_ (List.forall₂_eq_eq_eq ▸ rfl)
  rintro path _ rfl
  exact find?_related h path

end Order

/-- Related files make related images. -/
theorem ofFiles_related (hR : ∀ {f g}, R f g → f.Same g) (h : List.Forall₂ R fs more)
    (hI : ofFiles fs = .ok I) : ∃ J, ofFiles more = .ok J ∧ Related R I J := by
  obtain ⟨hn, hd, ha, rfl⟩ := ofFiles_eq_ok_iff.mp hI
  have hpaths : more.map (·.path) = fs.map (·.path) := by
    refine (List.forall₂_eq_eq_eq ▸ ?_ : fs.map (·.path) = more.map (·.path)).symm
    rw [List.forall₂_map_left_iff, List.forall₂_map_right_iff]
    exact h.imp fun _ _ hfg => (hR hfg).path.symm
  refine ⟨_, ofFiles_eq_ok_iff.mpr ⟨?_, hpaths ▸ hd, ?_, rfl⟩, sort_related hR ?_⟩
  · rintro rfl
    exact hn (List.forall₂_nil_right_iff.mp h)
  · intro f' hf' g' hg' m hfm hgm
    obtain ⟨f, hf, hff⟩ := exists_of_forall₂ h hf'
    obtain ⟨g, hg, hgg⟩ := exists_of_forall₂ h hg'
    rw [(hR hff).commit, (hR hgg).commit]
    exact ha f hf g hg m ((hR hff).module ▸ hfm) ((hR hgg).module ▸ hgm)
  · rw [List.forall₂_map_left_iff, List.forall₂_map_right_iff]
    exact h.imp fun _ _ hfg => ⟨(hR hfg).path, hfg⟩

theorem Related.withoutImports (hR : Viewed R) (h : Related R I J) :
    Related R I.withoutImports J.withoutImports := by
  refine List.rel_filter (fun e e' he => ?_) h
  simp only [(hR.same he.2).isImport]

section Narrow

variable {missing : Missing} {include_ exclude targets : List String}

theorem Related.paths_eq (h : Related R I J) : J.paths = I.paths := by
  refine (List.forall₂_eq_eq_eq ▸ ?_ : I.paths = J.paths).symm
  rw [paths, paths, List.forall₂_map_left_iff, List.forall₂_map_right_iff]
  exact h.imp fun _ _ he => he.1.symm

/-- Related images have the same files at paths that are chosen by path and import flag. -/
theorem Related.chosen_eq (hR : Viewed R) (h : Related R I J) (p : String → Bool → Bool) :
    (J.files.filter fun f => p f.path f.isImport).map (·.path) =
      (I.files.filter fun f => p f.path f.isImport).map (·.path) := by
  have hfilter : List.Forall₂ R (I.files.filter fun f => p f.path f.isImport)
      (J.files.filter fun f => p f.path f.isImport) :=
    List.rel_filter
      (fun f g hfg => by simp only [(hR.same hfg).path, (hR.same hfg).isImport]) h.files
  refine (List.forall₂_eq_eq_eq ▸ ?_ : List.map _ _ = List.map _ _).symm
  rw [List.forall₂_map_left_iff, List.forall₂_map_right_iff]
  exact hfilter.imp fun _ _ hfg => (hR.same hfg).path.symm

theorem Related.unmatched?_eq (hR : Viewed R) (h : Related R I J) (ps : List String) :
    J.unmatched? ps = I.unmatched? ps := by
  have hpaths : J.files.map (·.path) = I.files.map (·.path) := by
    simpa using h.chosen_eq hR fun _ _ => true
  have hany : ∀ p, J.files.any (fun f => Path.contains p f.path) =
      I.files.any fun f => Path.contains p f.path := fun p => by
    simpa [List.any_map, Function.comp_def] using
      congrArg (fun l => l.any fun path => Path.contains p path) hpaths
  simp only [unmatched?, hany]

theorem Related.asked_eq (hR : Viewed R) (h : Related R I J) :
    J.asked include_ exclude = I.asked include_ exclude := by
  rw [asked, asked]
  by_cases hn : include_ = []
  · simp only [hn, if_true, h.chosen_eq hR fun _ b => !b]
  · simp only [hn, if_false, h.chosen_eq hR fun path _ => include_.any fun p =>
      Path.contains p path]

theorem Related.importsAt_eq (hR : Viewed R) (h : Related R I J) : J.importsAt = I.importsAt := by
  have hpath : ∀ d, (J.file? d).map (·.path) = (I.file? d).map (·.path) := fun d => by
    have hr := h.file? d
    generalize I.file? d = a, J.file? d = b at hr ⊢
    cases hr with
    | none => rfl
    | some hfg => exact congrArg some (hR.same hfg).path
  funext path
  have hr := h.file? path
  rw [importsAt, importsAt]
  generalize I.file? path = a, J.file? path = b at hr ⊢
  cases hr with
  | none => rfl
  | some hfg => simp only [hpath, (hR.same hfg).dependencies]

theorem Related.keep (hR : Viewed R) (h : Related R I J) (hI : I.keep targets = .ok M) :
    ∃ N, J.keep targets = .ok N ∧ Related R M N := by
  refine ofFiles_related hR.same ?_ hI
  rw [h.importsAt_eq hR, h.paths_eq, List.forall₂_map_left_iff, List.forall₂_map_right_iff]
  have hfilter : List.Forall₂ R
      (I.files.filter fun f => f.path ∈ reachable I.importsAt I.paths targets)
      (J.files.filter fun f => f.path ∈ reachable I.importsAt I.paths targets) :=
    List.rel_filter (fun f g hfg => by simp only [(hR.same hfg).path]) h.files
  refine hfilter.imp fun f g hfg => ?_
  rw [(hR.same hfg).path]
  exact hR.withImport _ hfg

theorem Related.narrowTo (hR : Viewed R) (h : Related R I J)
    (hI : I.narrowTo missing include_ exclude = .ok M) :
    ∃ N, J.narrowTo missing include_ exclude = .ok N ∧ Related R M N := by
  rw [Image.narrowTo] at hI ⊢
  split at hI
  · rename_i hn
    obtain rfl := Except.ok.inj hI
    exact ⟨J, by rw [if_pos hn], h⟩
  · rename_i hn
    rw [if_neg hn, h.unmatched?_eq hR, h.asked_eq hR]
    split at hI
    · cases hI
    · split at hI
      · cases hI
      · dsimp only at hI ⊢
        split at hI
        · cases hI
        · rename_i ht
          rw [if_neg ht]
          exact h.keep hR hI

/-- Narrowing keeps related images related. -/
theorem Related.narrow (hR : Viewed R) (h : Related R I J)
    (hI : I.narrow missing include_ exclude = .ok M) :
    ∃ N, J.narrow missing include_ exclude = .ok N ∧ Related R M N := by
  obtain ⟨include', hi, hI⟩ := bind_eq_ok_iff.mp hI
  obtain ⟨exclude', he, hI⟩ := bind_eq_ok_iff.mp hI
  obtain ⟨N, hN, hrel⟩ := h.narrowTo hR hI
  exact ⟨N, bind_eq_ok_iff.mpr ⟨_, hi, bind_eq_ok_iff.mpr ⟨_, he, hN⟩⟩, hrel⟩

theorem Related.directories_eq (hR : Viewed R) (h : Related R I J) :
    J.directories = I.directories := by
  have hd := congrArg (List.map Path.dir) (h.chosen_eq hR fun _ b => !b)
  rw [List.map_map, List.map_map] at hd
  simp only [Function.comp_def] at hd
  rw [directories, directories, hd]

theorem Related.targetsIn_eq (hR : Viewed R) (h : Related R I J) (dir : String) :
    J.targetsIn dir = I.targetsIn dir := by
  rw [targetsIn, targetsIn, h.chosen_eq hR fun _ b => !b]

/-- The parts of related images are related. -/
theorem Related.byDirectory (hR : Viewed R) (h : Related R I J) {parts : List Image}
    (hI : I.byDirectory = .ok parts) :
    ∃ parts', J.byDirectory = .ok parts' ∧ List.Forall₂ (Related R) parts parts' := by
  rw [Image.byDirectory, mapM_eq_ok_iff] at hI
  rw [Image.byDirectory, h.directories_eq hR]
  simp only [mapM_eq_ok_iff, h.targetsIn_eq hR]
  generalize I.directories = dirs at hI
  induction hI with
  | nil => exact ⟨[], .nil, .nil⟩
  | cons hM _ ih =>
    obtain ⟨N, hN, hrel⟩ := h.narrow hR hM
    obtain ⟨Ns, hNs, hrels⟩ := ih
    exact ⟨N :: Ns, .cons hN hNs, .cons hrel hrels⟩

end Narrow

section Merge

theorem addFile_related (hR : Viewed R) (h : List.Forall₂ (Entry R) merged next) (hfg : R f g)
    {merged' : List (String × ImageFile)} (hm : addFile f merged = .ok merged') :
    ∃ next', addFile g next = .ok next' ∧ List.Forall₂ (Entry R) merged' next' := by
  have hs := hR.same hfg
  induction h generalizing merged' with
  | nil =>
    obtain rfl := Except.ok.inj hm
    exact ⟨_, rfl, .cons ⟨hs.path, hfg⟩ .nil⟩
  | @cons e e' entries other he hrest ih =>
    obtain ⟨path, a⟩ := e
    obtain ⟨path', b⟩ := e'
    obtain ⟨hpath, hab⟩ := he
    dsimp only at hpath hab
    subst hpath
    rw [addFile] at hm ⊢
    rw [hs.path, hs.isImport, (hR.same hab).isImport]
    by_cases hp : path' = f.path
    · rw [if_pos hp] at hm ⊢
      by_cases ha : a.isImport = true
      · rw [if_pos ha] at hm ⊢
        obtain rfl := Except.ok.inj hm
        refine ⟨_, rfl, .cons ⟨rfl, ?_⟩ hrest⟩
        dsimp only
        split
        · exact hab
        · exact hfg
      · rw [if_neg ha] at hm ⊢
        by_cases hf : f.isImport = true
        · rw [if_pos hf] at hm ⊢
          obtain rfl := Except.ok.inj hm
          exact ⟨_, rfl, .cons ⟨rfl, hab⟩ hrest⟩
        · rw [if_neg hf] at hm
          cases hm
    · rw [if_neg hp] at hm ⊢
      cases ha : addFile f entries with
      | error e =>
        rw [ha] at hm
        cases hm
      | ok l =>
        rw [ha] at hm
        obtain rfl := Except.ok.inj hm
        obtain ⟨l', hl', hrel⟩ := ih ha
        exact ⟨(path', b) :: l', by rw [hl']; rfl, .cons ⟨rfl, hab⟩ hrel⟩

theorem mergeFiles_related (hR : Viewed R) (h : List.Forall₂ (Entry R) merged next)
    (hf : List.Forall₂ R fs more) {merged' : List (String × ImageFile)}
    (hm : mergeFiles merged fs = .ok merged') :
    ∃ next', mergeFiles next more = .ok next' ∧ List.Forall₂ (Entry R) merged' next' := by
  induction hf generalizing merged next with
  | nil =>
    obtain rfl := Except.ok.inj hm
    exact ⟨next, rfl, h⟩
  | cons hfg _ ih =>
    obtain ⟨l, hl, hm⟩ := bind_eq_ok_iff.mp (show _ >>= _ = _ from hm)
    obtain ⟨l', hl', hrel⟩ := addFile_related hR h hfg hl
    obtain ⟨next', hn, hrel'⟩ := ih hrel hm
    exact ⟨next', bind_eq_ok_iff.mpr ⟨l', hl', hn⟩, hrel'⟩

/-- Merging keeps related images related. -/
theorem merge_related (hR : Viewed R) {Is Js : List Image} (h : List.Forall₂ (Related R) Is Js)
    (hI : merge Is = .ok (some M)) : ∃ N, merge Js = .ok (some N) ∧ Related R M N := by
  cases h with
  | nil => cases hI
  | @cons I J Is Js hIJ h =>
    cases h with
    | nil =>
      obtain rfl := Option.some.inj (Except.ok.inj hI)
      exact ⟨J, rfl, hIJ⟩
    | @cons I' J' Is Js hIJ' h =>
      have hfiles : List.Forall₂ R ((I :: I' :: Is).flatMap (·.files))
          ((J :: J' :: Js).flatMap (·.files)) :=
        List.rel_flatMap (.cons hIJ (.cons hIJ' h)) fun _ _ hr => Related.files hr
      obtain ⟨merged, hm, hI⟩ := bind_eq_ok_iff.mp (show _ >>= _ = _ from hI)
      obtain ⟨M', hM, hI⟩ := bind_eq_ok_iff.mp hI
      obtain rfl := Option.some.inj (Except.ok.inj hI)
      obtain ⟨next, hn, hrel⟩ := mergeFiles_related hR .nil hfiles hm
      have hlast : List.Forall₂ R (merged.map (·.2)) (next.map (·.2)) := by
        rw [List.forall₂_map_left_iff, List.forall₂_map_right_iff]
        exact hrel.imp fun _ _ he => he.2
      obtain ⟨N, hN, hrel'⟩ := ofFiles_related hR.same hlast hM
      exact ⟨N, bind_eq_ok_iff.mpr ⟨next, hn, bind_eq_ok_iff.mpr ⟨N, hN, rfl⟩⟩, hrel'⟩

end Merge

end Image
end DescriptorKit
