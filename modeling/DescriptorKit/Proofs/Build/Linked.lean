import Mathlib.Data.List.Perm.Subperm
import DescriptorKit.Proofs.Build.Supplied
import DescriptorKit.Proofs.Path
import DescriptorKit.Proofs.Pool

/-!
What is linked. Linking a file goes on from files that were linked with all they import; so it is
after it, and what is new is reached by imports from the file that was asked for.
-/
namespace DescriptorKit.Build
open DescriptorKit.Language Supply Pool

variable {R : SourceReader} {l l' l₁ : Linking} {path : String} {unit : SourceUnit}
  {supply : Supply}
  {roots more : List String} {targets : List String} {annotations : List Annotation}

/-- A linked file imports a path. -/
def Imported (files : List Linked) (path d : String) : Prop :=
  ∃ f ∈ files, f.file.name = path ∧ d ∈ f.file.dependencies

theorem reach_mono {files files' : List Linked} {d : String} (h : files ⊆ files')
    (hr : Relation.ReflTransGen (Imported files) path d) :
    Relation.ReflTransGen (Imported files') path d :=
  Relation.ReflTransGen.mono (fun _ _ ⟨f, hf, hrest⟩ => ⟨f, h hf, hrest⟩) _ _ hr

/-- What holds of the files that were linked so far: each was supplied under its name, and all that
it imports was linked. -/
structure Sound (R : SourceReader) (l : Linking) : Prop where
  reached : Reached R l.supply
  pooled : l.pool.files = l.files.map (·.file)
  supplied : ∀ f ∈ l.files, Supplied R l.supply.lookups f.file.name f.unit
  heads : ∀ f ∈ l.files, SameHead f.unit.file f.file
  normal : ∀ f ∈ l.files, Path.normalize f.file.name = .ok f.file.name
  closed : ∀ f ∈ l.files, ∀ d ∈ f.file.dependencies, ∃ g ∈ l.files, g.file.name = d

/-- Linking went on until the roots were linked, and what it added is reached from them. -/
structure Goes (R : SourceReader) (roots : List String) (l l' : Linking) : Prop where
  sound : Sound R l'
  heard : l.supply.lookups <:+ l'.supply.lookups
  keeps : l.files ⊆ l'.files
  linked : ∀ root ∈ roots, ∃ f ∈ l'.files, Path.normalize root = .ok f.file.name
  added : ∀ f ∈ l'.files, f ∈ l.files ∨ ∃ root ∈ roots, ∃ normal, Path.normalize root = .ok normal ∧
    Relation.ReflTransGen (Imported l'.files) normal f.file.name

theorem Sound.goes (h : Sound R l) : Goes R [] l l :=
  ⟨h, List.suffix_refl _, List.Subset.refl _, by simp, fun _ hf => .inl hf⟩

theorem Sound.goes_of_linked (h : Sound R l) (hp : ∃ f ∈ l.files, f.file.name = path) :
    Goes R [path] l l := by
  obtain ⟨f, hf, rfl⟩ := hp
  exact ⟨h, List.suffix_refl _, List.Subset.refl _, by simpa using ⟨f, hf, h.normal f hf⟩,
    fun _ hf => .inl hf⟩

theorem Goes.trans (h : Goes R roots l l₁) (h' : Goes R more l₁ l') :
    Goes R (roots ++ more) l l' where
  sound := h'.sound
  heard := h.heard.trans h'.heard
  keeps := List.Subset.trans h.keeps h'.keeps
  linked root hroot := by
    rcases List.mem_append.mp hroot with hroot | hroot
    · obtain ⟨f, hf, hn⟩ := h.linked root hroot
      exact ⟨f, h'.keeps hf, hn⟩
    · exact h'.linked root hroot
  added f hf := by
    rcases h'.added f hf with hf | ⟨root, hroot, normal, hn, hr⟩
    · refine (h.added f hf).imp_right fun ⟨root, hroot, normal, hn, hr⟩ => ?_
      exact ⟨root, List.mem_append_left _ hroot, normal, hn, reach_mono h'.keeps hr⟩
    · exact .inr ⟨root, List.mem_append_right _ hroot, normal, hn, hr⟩

/-- A source that is taken changes nothing about the files that were linked. -/
theorem Sound.take (h : Sound R l) (ht : (Supply.take R path).run l.supply = (.ok unit, supply)) :
    Goes R [] l { l with supply } ∧
      ∃ normal, Path.normalize path = .ok normal ∧ Supplied R supply.lookups normal unit := by
  obtain ⟨hheard, hsupplied⟩ := h.reached.supplied ht
  have hreached := h.reached.take path
  rw [ht] at hreached
  have hsound : Sound R { l with supply } :=
    ⟨hreached, h.pooled, fun f hf => (h.supplied f hf).mono hheard, h.heads, h.normal, h.closed⟩
  exact ⟨⟨hsound, hheard, List.Subset.refl _, by simp, fun _ hf => .inl hf⟩, hsupplied⟩

/-- A file whose imports were linked is linked itself, or was linked before. -/
theorem Goes.add {g : Linked} (h : Goes R unit.file.dependencies l l₁) (hs : Sound R l')
    (heard : l₁.supply.lookups <:+ l'.supply.lookups) (keeps : l₁.files ⊆ l'.files)
    (hnew : ∀ f ∈ l'.files, f ∈ l₁.files ∨ f = g) (hg : g ∈ l'.files)
    (hname : Path.normalize path = .ok g.file.name)
    (hdeps : g.file.dependencies = unit.file.dependencies) : Goes R [path] l l' where
  sound := hs
  heard := h.heard.trans heard
  keeps := List.Subset.trans h.keeps keeps
  linked := by simpa using ⟨g, hg, hname⟩
  added f hf := by
    rcases hnew f hf with hold | rfl
    · refine (h.added f hold).imp_right fun ⟨d, hd, normal, hn, hr⟩ => ?_
      rw [← hdeps] at hd
      -- What a linked file imports was linked, so it stands there in normal form.
      obtain ⟨k, hk, hkd⟩ := hs.closed g hg d hd
      obtain rfl : d = normal := by simpa [← hkd, hs.normal k hk] using hn
      exact ⟨path, List.mem_singleton_self _, _, hname,
        .head ⟨g, hg, rfl, hd⟩ (reach_mono keeps hr)⟩
    · exact .inr ⟨path, List.mem_singleton_self _, _, hname, .refl⟩

namespace Linker

theorem add_eq (unit : SourceUnit) (l : Linking) :
    (add unit).run.run l =
      match l.pool.extend [unit.file] with
      | .error finding => (.error (.pool finding unit), l)
      | .ok (pool, added) => (.ok (), { l with
          pool
          files := l.files ++ added.map fun (a : Pool.Added) =>
          Linked.mk unit a.file a.moves }) := by
  rw [add, run_get_bind]
  cases l.pool.extend [unit.file] <;> rfl

theorem take_eq (R : SourceReader) (path : String) (l : Linking) :
    (take R path).run.run l =
      match (Supply.take R path).run l.supply with
      | (.ok unit, supply) => (.ok unit, { l with supply })
      | (.error fault, supply) => (.error (.ofSupply fault), { l with supply }) := by
  rw [take, run_get_bind]
  rcases (Supply.take R path).run l.supply with ⟨_ | unit, supply⟩ <;> rfl

theorem link_succ_eq (R : SourceReader) (fuel : Nat) (stack : List String) (path : String)
    (l : Linking) :
    (link R (fuel + 1) stack path).run.run l =
      if path ∈ stack then (.error (.cycle path stack), l)
      else if ∃ f ∈ l.files, f.file.name = path then (.ok (), l)
      else
        match (Supply.take R path).run l.supply with
        | (.error fault, supply) => (.error (.ofSupply fault), { l with supply })
        | (.ok unit, supply) =>
          match (linkImports (link R fuel (stack ++ [path])) unit []
              unit.file.dependencies.zipIdx).run.run { l with supply } with
          | (.error f, l₁) => (.error f, l₁)
          | (.ok (), l₁) => (add unit).run.run l₁ := by
  rw [link]
  by_cases hp : path ∈ stack
  · rw [if_pos hp, if_pos hp]
    rfl
  · have hfound : (isLinked path).run.run l = (.ok (l.files.any (·.file.name = path)), l) := rfl
    rw [if_neg hp, if_neg hp, run_bind_eq, hfound]
    by_cases hl : ∃ f ∈ l.files, f.file.name = path
    · have hany : l.files.any (·.file.name = path) = true := by simpa using hl
      rw [if_pos hl, hany]
      rfl
    · have hany : l.files.any (·.file.name = path) = false := by simpa using hl
      rw [if_neg hl, hany]
      dsimp only
      rw [if_neg Bool.false_ne_true, run_bind_eq, take_eq]
      rcases (Supply.take R path).run l.supply with ⟨_ | unit, supply⟩
      · rfl
      · dsimp only
        rw [run_bind_eq]
        rcases StateT.run (ExceptT.run (linkImports _ unit [] _)) _ with ⟨_ | _, l₁⟩ <;> rfl

/-- What a file is linked from: it was linked already, or its imports are, and then it is added. -/
theorem link_eq_ok {fuel : Nat} {stack : List String}
    (h : (link R (fuel + 1) stack path).run.run l = (.ok (), l')) :
    (∃ f ∈ l.files, f.file.name = path) ∧ l' = l ∨
    ∃ unit supply l₁, (Supply.take R path).run l.supply = (.ok unit, supply) ∧
      (linkImports (link R fuel (stack ++ [path])) unit [] unit.file.dependencies.zipIdx).run.run
        { l with supply } = (.ok (), l₁) ∧ (add unit).run.run l₁ = (.ok (), l') := by
  rw [link_succ_eq] at h
  split at h
  · cases h
  · split at h
    · rename_i hlinked
      exact .inl ⟨hlinked, ((Prod.mk.inj h).2).symm⟩
    · split at h
      · cases h
      · rename_i htake
        split at h
        · cases h
        · rename_i himports
          exact .inr ⟨_, _, _, htake, himports, h⟩

/-- A fault that is handed on comes from the steps themselves. -/
theorem tryCatch_throw_eq (x : Linker Unit) (g : LinkFault → LinkFault) (l : Linking) :
    (tryCatch x fun f => throw (g f)).run.run l =
      match x.run.run l with
      | (.ok (), l') => (.ok (), l')
      | (.error f, l') => (.error (g f), l') := by
  rw [ExceptT.run_tryCatch, StateT.run_bind]
  rcases x.run.run l with ⟨_ | _, l'⟩ <;> rfl

theorem linkImports_cons_run (link : String → Linker Unit) (unit : SourceUnit) (seen : List String)
    (i : String × Nat) (rest : List (String × Nat)) (l : Linking) :
    (linkImports link unit seen (i :: rest)).run.run l =
      match (link i.1).run.run l with
      | (.error f, l₁) => (.error (f.inImporter unit.file.name), l₁)
      | (.ok (), l₁) =>
        if i.1 ∈ seen then (.error (.importTwice i.1 unit (importSpan? unit i.2)), l₁)
        else (linkImports link unit (i.1 :: seen) rest).run.run l₁ := by
  rw [linkImports, run_bind_eq, tryCatch_throw_eq]
  rcases (link i.1).run.run l with ⟨_ | _, l₁⟩
  · rfl
  · dsimp only
    split <;> rfl

theorem linkImports_cons_eq_ok {link : String → Linker Unit} {seen : List String} {index : Nat}
    {rest : List (String × Nat)}
    (h : (linkImports link unit seen ((path, index) :: rest)).run.run l = (.ok (), l')) :
    ∃ l₁, (link path).run.run l = (.ok (), l₁) ∧
      (linkImports link unit (path :: seen) rest).run.run l₁ = (.ok (), l') := by
  rw [linkImports_cons_run] at h
  split at h
  · cases h
  · rename_i l₁ hlink
    split at h
    · cases h
    · exact ⟨l₁, hlink, h⟩

end Linker

/-- Linking the imports of a file goes on until they were linked. -/
theorem linkImports_goes {link : String → Linker Unit}
    (hlink : ∀ path l l', Sound R l → (link path).run.run l = (.ok (), l') → Goes R [path] l l')
    {seen : List String} {imports : List (String × Nat)} (hl : Sound R l)
    (h : (Linker.linkImports link unit seen imports).run.run l = (.ok (), l')) :
    Goes R (imports.map (·.1)) l l' := by
  induction imports generalizing seen l with
  | nil =>
    obtain ⟨-, rfl⟩ := Prod.mk.inj h
    exact hl.goes
  | cons i rest ih =>
    obtain ⟨l₁, hfirst, hrest⟩ := Linker.linkImports_cons_eq_ok h
    have hgoes := hlink i.1 l l₁ hl hfirst
    exact hgoes.trans (ih hgoes.sound hrest)

/-- A file that was added to the pool is linked. -/
theorem Sound.added {pool : Pool} {f : Linked} (h : Sound R l)
    (hpool : pool.files = l.pool.files ++ [f.file])
    (hu : Supplied R l.supply.lookups f.unit.file.name f.unit)
    (hn : Path.normalize f.unit.file.name = .ok f.unit.file.name)
    (hhead : SameHead f.unit.file f.file)
    (himports : ∀ d ∈ f.unit.file.dependencies, ∃ g ∈ pool.files, g.name = d) :
    Sound R { l with pool, files := l.files ++ [f] } where
  reached := h.reached
  pooled := by simp [hpool, h.pooled]
  supplied := by simpa [forall_eq_or_imp, or_imp, forall_and] using ⟨h.supplied, hhead.name ▸ hu⟩
  heads := by simpa [or_imp, forall_and] using ⟨h.heads, hhead⟩
  normal := by simpa [or_imp, forall_and] using ⟨h.normal, hhead.name ▸ hn⟩
  closed := by
    intro g hg d hd
    rcases List.mem_append.mp hg with hg | hg
    · obtain ⟨k, hk, hkd⟩ := h.closed g hg d hd
      exact ⟨k, List.mem_append_left _ hk, hkd⟩
    · obtain rfl := List.mem_singleton.mp hg
      obtain ⟨p, hp, rfl⟩ := himports d (hhead.dependencies ▸ hd)
      have hfiles : pool.files = (l.files ++ [g]).map (·.file) := by simp [hpool, h.pooled]
      rw [hfiles] at hp
      obtain ⟨k, hk, rfl⟩ := List.mem_map.mp hp
      exact ⟨k, hk, rfl⟩

/-- A file is added behind its imports. -/
theorem add_goes (hR : Steady R) {normal : String} (hn : Path.normalize path = .ok normal)
    (hu : Supplied R l₁.supply.lookups normal unit) (h : Goes R unit.file.dependencies l l₁)
    (hadd : (Linker.add unit).run.run l₁ = (.ok (), l')) : Goes R [path] l l' := by
  have hs := h.sound
  obtain rfl := hu.name
  rw [Linker.add_eq] at hadd
  split at hadd
  · cases hadd
  · rename_i pool added hextend
    obtain ⟨-, rfl⟩ := Prod.mk.inj hadd
    obtain ⟨⟨k, hk, hkn⟩, hsame, rfl⟩ | ⟨a, rfl, hgrown, hhead, himports⟩ := extend_cases hextend
    · -- The file was linked under this name before, from the same source.
      rw [hs.pooled] at hk
      obtain ⟨g, hg, rfl⟩ := List.mem_map.mp hk
      have hunit : g.unit = unit := hu.unique hR (hkn ▸ hs.supplied g hg)
      have hdeps : g.file.dependencies = unit.file.dependencies :=
        hunit ▸ (hs.heads g hg).dependencies
      rw [List.map_nil, List.append_nil]
      exact h.add ⟨hs.reached, hsame.trans hs.pooled, hs.supplied, hs.heads, hs.normal, hs.closed⟩
        (List.suffix_refl _) (List.Subset.refl _) (fun f hf => .inl hf) hg (hkn ▸ hn) hdeps
    · have hgrows : Sound R { l₁ with pool, files := l₁.files ++ [⟨unit, a.file, a.moves⟩] } :=
        hs.added hgrown hu (Path.normalize_normal hn) hhead himports
      exact h.add (g := ⟨unit, a.file, a.moves⟩) hgrows (List.suffix_refl _)
        (List.subset_append_left _ _) (fun f hf => by simpa using hf) (by simp) (hhead.name ▸ hn)
        hhead.dependencies

theorem link_goes (hR : Steady R) {fuel : Nat} {stack : List String} (hl : Sound R l)
    (h : (Linker.link R fuel stack path).run.run l = (.ok (), l')) : Goes R [path] l l' := by
  induction fuel generalizing stack path l l' with
  | zero => cases h
  | succ fuel ih =>
    obtain ⟨hlinked, rfl⟩ | ⟨unit, supply, l₁, htake, himports, hadd⟩ := Linker.link_eq_ok h
    · exact hl.goes_of_linked hlinked
    · obtain ⟨htaken, normal, hn, hu⟩ := hl.take htake
      have hgoes := linkImports_goes (fun _ _ _ hl hlink => ih hl hlink) htaken.sound himports
      rw [List.zipIdx_map_fst] at hgoes
      exact add_goes hR hn (hu.mono hgoes.heard) (htaken.trans hgoes) hadd

/-- Something is told about each fault. -/
theorem annotations_ne_nil (origins : Origins) (f : LinkFault) : f.annotations origins ≠ [] := by
  rw [LinkFault.annotations]
  rcases f.places with ⟨source, _ | ⟨offset, offsets⟩⟩ <;> simp

theorem linkTargets_annotations {rest : List String}
    (h : linkTargets R targets rest l annotations = .ok (l', [])) : annotations = [] := by
  induction rest generalizing l annotations with
  | nil => exact (Prod.mk.inj (Except.ok.inj h)).2
  | cons path rest ih =>
    rw [linkTargets] at h
    split at h
    · exact ih h
    · split at h
      · cases h
      · cases h
      · exact (List.append_eq_nil_iff.mp (ih h)).1

/-- Where nothing is found wrong with the targets, all of them were linked. -/
theorem linkTargets_goes (hR : Steady R) {rest : List String} (hl : Sound R l)
    (h : linkTargets R targets rest l annotations = .ok (l', [])) : Goes R rest l l' := by
  induction rest generalizing l annotations with
  | nil =>
    obtain ⟨rfl, -⟩ := Prod.mk.inj (Except.ok.inj h)
    exact hl.goes
  | cons path rest ih =>
    rw [linkTargets] at h
    split at h
    · rename_i l₁ hlink
      have hgoes := link_goes hR hl hlink
      exact hgoes.trans (ih hgoes.sound h)
    · split at h
      · cases h
      · cases h
      · have hnil := linkTargets_annotations h
        exact absurd (List.append_eq_nil_iff.mp hnil).2 (annotations_ne_nil _ _)

/-- The targets are read ahead before anything is linked. -/
theorem readTargets_reached {s : Supply} (h : Reached R s) (targets : List String) :
    Reached R ((readTargets R targets).run s).2 := by
  induction targets generalizing s with
  | nil => exact h
  | cons path rest ih =>
    have hfirst := h.ahead path
    rw [readTargets, StateT.run_bind]
    rcases hrun : (readAhead R path).run s with ⟨(_ | _) | _, s₁⟩
    all_goals
      rw [hrun] at hfirst
      exact ih hfirst

/-- A build that succeeds links its targets and what is reached from them. -/
theorem Stages.goes {options : BuildOptions} {I : Image} (hR : Steady R)
    (h : Stages R options targets supply l I) : Goes R targets { supply } l := by
  have hread := readTargets_reached .start targets (R := R)
  rw [h.read] at hread
  exact linkTargets_goes hR ⟨hread, rfl, by simp, by simp, by simp, by simp⟩ h.linked

section Fuel

variable {fuel n : Nat} {stack : List String} {normal : String}

/-- A file is found only at one of the paths that there are. -/
def Lists (R : SourceReader) : Prop := ∀ path n f, R.lookup path n = .ok (some f) → path ∈ R.paths

/-- The paths at which a file can be found, or a bundled one is. -/
def supplyPaths (R : SourceReader) : List String := R.paths ++ Bundled.files.map (·.name)

theorem mem_supplyPaths {before : List String} (hR : Lists R)
    (h : Supplied R before path unit) : path ∈ supplyPaths R := by
  cases h with
  | found answered _ =>
    obtain ⟨n, -, ha⟩ := answered
    exact List.mem_append_left _ (hR path n _ ha)
  | bundled _ held =>
    refine List.mem_append_right _ (List.mem_map.mpr ⟨_, List.mem_of_find?_eq_some held, ?_⟩)
    simpa using List.find?_some held

/-- More fuel changes nothing about linking a path. -/
def Enough (R : SourceReader) (fuel : Nat) (stack : List String) (path : String) (l : Linking) :
    Prop :=
  ∀ more, (Linker.link R (fuel + more) stack path).run.run l =
    (Linker.link R fuel stack path).run.run l

theorem Enough.mono (h : Enough R n stack path l) (hle : n ≤ fuel) :
    Enough R fuel stack path l := by
  obtain ⟨k, rfl⟩ := Nat.exists_eq_add_of_le hle
  intro more
  rw [Nat.add_assoc, h, h]

theorem enough_of_mem (h : path ∈ stack) : Enough R 1 stack path l := by
  intro more
  rw [Nat.add_comm, Linker.link_succ_eq, Linker.link_succ_eq, if_pos h, if_pos h]

theorem enough_of_linked (h : ∃ f ∈ l.files, f.file.name = path) : Enough R 1 stack path l := by
  intro more
  rw [Nat.add_comm, Linker.link_succ_eq, Linker.link_succ_eq, if_pos h, if_pos h]

/-- Nothing is linked that leads to itself. -/
theorem not_mem_of_link (h : (Linker.link R fuel stack path).run.run l = (.ok (), l')) :
    path ∉ stack := by
  intro hp
  cases fuel with
  | zero => cases h
  | succ fuel =>
    rw [Linker.link_succ_eq, if_pos hp] at h
    cases h

/-- Fuel that is enough for each import once those before it were linked is enough for all. -/
theorem linkImports_enough (hR : Steady R) (hl : Sound R l)
    (h : ∀ before d after l', unit.file.dependencies = before ++ d :: after → Goes R before l l' →
      (∀ p ∈ before, p ∉ stack) → Enough R fuel stack d l') (more : Nat) :
    (Linker.linkImports (Linker.link R (fuel + more) stack) unit []
        unit.file.dependencies.zipIdx).run.run l =
      (Linker.linkImports (Linker.link R fuel stack) unit []
        unit.file.dependencies.zipIdx).run.run l := by
  suffices hrest : ∀ (imports : List (String × Nat)) (before seen : List String) (l' : Linking),
      unit.file.dependencies = before ++ imports.map (·.1) → Goes R before l l' →
      (∀ p ∈ before, p ∉ stack) →
      (Linker.linkImports (Linker.link R (fuel + more) stack) unit seen imports).run.run l' =
        (Linker.linkImports (Linker.link R fuel stack) unit seen imports).run.run l' from
    hrest _ [] [] l (by simp) hl.goes (by simp)
  intro imports
  induction imports with
  | nil => exact fun _ _ _ _ _ _ => rfl
  | cons i rest ih =>
    intro before seen l' hdeps hgoes hnot
    rw [List.map_cons] at hdeps
    have hfirst := h before i.1 _ l' hdeps hgoes hnot more
    rw [Linker.linkImports_cons_run, Linker.linkImports_cons_run, hfirst]
    cases hrun : (Linker.link R fuel stack i.1).run.run l' with
    | mk r l₁ =>
      cases r with
      | error f => rfl
      | ok u =>
        dsimp only
        split
        · rfl
        · refine ih (before ++ [i.1]) _ l₁ (by simp [hdeps])
            (hgoes.trans (link_goes hR hgoes.sound hrun)) ?_
          simpa [or_imp, forall_and] using ⟨hnot, not_mem_of_link hrun⟩

/-- What a file that was linked imports was linked, and so was that. -/
theorem enough_of_normal_linked (hR : Steady R) (hl : Sound R l)
    (hn : Path.normalize path = .ok normal) (h : ∃ g ∈ l.files, g.file.name = normal) :
    Enough R 2 stack path l := by
  intro more
  rw [show 2 + more = 1 + more + 1 by omega, Linker.link_succ_eq, Linker.link_succ_eq]
  cases htake : (Supply.take R path).run l.supply with
  | mk r supply =>
    cases r with
    | error fault => rfl
    | ok unit =>
      obtain ⟨htaken, p, hp, hu⟩ := hl.take htake
      obtain rfl := Except.ok.inj (hn.symm.trans hp)
      obtain ⟨g, hg, rfl⟩ := h
      obtain rfl : g.unit = unit := hu.unique hR (htaken.sound.supplied g hg)
      dsimp only
      rw [linkImports_enough hR htaken.sound fun before d after l' hdeps hgoes _ => ?_]
      have hd : d ∈ g.file.dependencies := by
        rw [(hl.heads g hg).dependencies, hdeps]
        simp
      obtain ⟨k, hk, hkd⟩ := hl.closed g hg d hd
      exact enough_of_linked ⟨k, hgoes.keeps hk, hkd⟩

/-- The files that are being linked. Each was supplied, the imports in front of the next one were
linked, and the next one is being linked or comes up now. -/
def Led (R : SourceReader) (l : Linking) (stack : List String) (path : String) : Prop :=
  ∀ s ∈ stack, ∃ normal unit before next after, Path.normalize s = .ok normal ∧
    Supplied R l.supply.lookups normal unit ∧ unit.file.dependencies = before ++ next :: after ∧
    next ∈ stack ++ [path] ∧
    ∀ d ∈ before, ∃ p, Path.normalize d = .ok p ∧ ∃ f ∈ l.files, f.file.name = p

/-- A path that has the normal form of one that is being linked leads back to it. -/
theorem Led.enough (h : Led R l stack path) (hR : Steady R) (hl : Sound R l) {s : String}
    (hs : s ∈ stack) (hsame : Path.normalize s = Path.normalize path) :
    Enough R 3 stack path l := by
  obtain ⟨normal, unit, before, next, after, hn, hu, hdeps, hnext, hbefore⟩ := h s hs
  intro more
  rw [show 3 + more = 2 + more + 1 by omega, Linker.link_succ_eq, Linker.link_succ_eq]
  cases htake : (Supply.take R path).run l.supply with
  | mk r supply =>
    cases r with
    | error fault => rfl
    | ok unit' =>
      obtain ⟨htaken, p, hp, hu'⟩ := hl.take htake
      obtain rfl := Except.ok.inj ((hn.symm.trans hsame).trans hp)
      obtain rfl := hu'.unique hR hu
      dsimp only
      rw [linkImports_enough hR htaken.sound fun before' d after' l' hdeps' hgoes hnot => ?_]
      rcases List.append_eq_append_iff.mp (hdeps.symm.trans hdeps') with
        ⟨mid, rfl, hmid⟩ | ⟨mid, rfl, hmid⟩
      · obtain _ | ⟨m, mid⟩ := mid
        · obtain ⟨rfl, -⟩ := List.cons.inj hmid
          exact (enough_of_mem hnext).mono (by omega)
        · -- A path that is being linked was not linked before.
          obtain ⟨rfl, -⟩ := List.cons.inj hmid
          exact (hnot next (by simp) hnext).elim
      · obtain _ | ⟨m, mid⟩ := mid
        · obtain ⟨rfl, -⟩ := List.cons.inj hmid
          exact (enough_of_mem hnext).mono (by omega)
        · obtain ⟨rfl, -⟩ := List.cons.inj hmid
          obtain ⟨q, hq, f, hf, hfq⟩ := hbefore d (by simp)
          exact enough_of_normal_linked hR hgoes.sound hq ⟨f, hgoes.keeps hf, hfq⟩

/-- Once all that is known of the files being linked is that, a path at a time goes on the stack. -/
theorem Led.push (h : Led R l stack path) {before after : List String} {d : String}
    {supply : Supply} (hn : Path.normalize path = .ok normal)
    (hu : Supplied R supply.lookups normal unit)
    (hdeps : unit.file.dependencies = before ++ d :: after)
    (hheard : l.supply.lookups <:+ l'.supply.lookups) (hkeeps : l.files ⊆ l'.files)
    (hgoes : Goes R before { l with supply } l') : Led R l' (stack ++ [path]) d := by
  intro s hs
  rcases List.mem_append.mp hs with hs | hs
  · obtain ⟨normal, unit, before, next, after, hn, hu, hdeps, hnext, hbefore⟩ := h s hs
    refine ⟨normal, unit, before, next, after, hn, hu.mono hheard, hdeps,
      List.mem_append_left _ hnext, fun p hp => ?_⟩
    obtain ⟨q, hq, f, hf, hfq⟩ := hbefore p hp
    exact ⟨q, hq, f, hkeeps hf, hfq⟩
  · obtain rfl := List.mem_singleton.mp hs
    refine ⟨normal, unit, before, d, after, hn, hu.mono hgoes.heard, hdeps, by simp,
      fun p hp => ?_⟩
    obtain ⟨f, hf, hname⟩ := hgoes.linked p hp
    exact ⟨_, hname, f, hf, rfl⟩

/-- The files that are being linked are distinct, so there are no more than paths. -/
theorem Led.length_le (h : Led R l stack path) (hR : Lists R)
    (hd : (stack.map Path.normalize).Nodup) : stack.length ≤ (supplyPaths R).length := by
  have hsub : stack.map Path.normalize ⊆ (supplyPaths R).map Except.ok := by
    intro n hn
    obtain ⟨s, hs, rfl⟩ := List.mem_map.mp hn
    obtain ⟨normal, unit, -, -, -, hn, hu, -⟩ := h s hs
    exact List.mem_map.mpr ⟨normal, mem_supplyPaths hR hu, hn.symm⟩
  simpa using (List.Nodup.subperm hd hsub).length_le

/-- Linking a path takes no more fuel than there are paths, short of those being linked. -/
theorem link_enough (hR : Steady R) (hp : Lists R) (hl : Sound R l) (hled : Led R l stack path)
    (hd : (stack.map Path.normalize).Nodup)
    (hfuel : (supplyPaths R).length + 3 ≤ fuel + stack.length) : Enough R fuel stack path l := by
  induction fuel generalizing stack path l with
  | zero => exact absurd (hled.length_le hp hd) (by omega)
  | succ fuel ih =>
    have hlength := hled.length_le hp hd
    by_cases hsame : ∃ s ∈ stack, Path.normalize s = Path.normalize path
    · obtain ⟨s, hs, hsame⟩ := hsame
      exact (hled.enough hR hl hs hsame).mono (by omega)
    · intro more
      rw [show fuel + 1 + more = fuel + more + 1 by omega, Linker.link_succ_eq,
        Linker.link_succ_eq]
      cases htake : (Supply.take R path).run l.supply with
      | mk r supply =>
        cases r with
        | error fault => rfl
        | ok unit =>
          obtain ⟨htaken, normal, hn, hu⟩ := hl.take htake
          dsimp only
          rw [linkImports_enough hR htaken.sound fun before d after l' hdeps hgoes _ => ?_]
          refine ih hgoes.sound (hled.push hn hu hdeps (htaken.heard.trans hgoes.heard)
            (List.Subset.trans htaken.keeps hgoes.keeps) hgoes) ?_ ?_
          · simpa [List.nodup_append, hd] using hsame
          · simpa [Nat.add_assoc, Nat.add_comm 1] using hfuel

/-- The fuel that targets are linked with suffices, where only paths that there are can be found. -/
theorem linkTarget_enough (hR : Steady R) (hp : Lists R) (hl : Sound R l) (more : Nat) :
    (Linker.link R (R.paths.length + Bundled.files.length + 3 + more) [] path).run.run l =
      (Linker.linkTarget R path).run.run l :=
  link_enough hR hp hl (fun s hs => by cases hs) (by simp) (by simp [supplyPaths]) more

/-- A bucket lists what it serves. -/
theorem lists_building (B : Bucket) (targets : List String) : Lists (B.building targets) := by
  intro path n f h
  have hfound : B.file? path = some f := Except.ok.inj h
  exact List.mem_map.mpr ⟨f, List.mem_of_find?_eq_some hfound, Bucket.path_of_file? hfound⟩

/-- So linking the files of a bucket never ends for want of fuel. -/
theorem linkTarget_building {B : Bucket} (hl : Sound (B.building targets) l) (path : String)
    (more : Nat) :
    (Linker.link (B.building targets) (B.paths.length + Bundled.files.length + 3 + more) []
        path).run.run l = (Linker.linkTarget (B.building targets) path).run.run l :=
  linkTarget_enough (B.building_steady targets) (lists_building B targets) hl more

end Fuel

end DescriptorKit.Build
