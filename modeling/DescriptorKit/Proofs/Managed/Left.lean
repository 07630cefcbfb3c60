import DescriptorKit.Proofs.Managed.Idempotent

/-!
What a pass leaves alone among the options of a file. An option that is to have no value keeps what
it had, in the same slots, while other options are set and source locations are dropped.
-/
namespace DescriptorKit
open Bundled Message

namespace Descriptor
open Managed

variable {d e k : Descriptor} {o o' : FileOption} {n : Nat} {s : Scalar} {m m' : Message}
  {p : List Nat}
  {may : List Nat → Message → Message → Prop} {ns : List Nat}

/-- What messages in some slots hold under a number. -/
def slotsIn (n : Nat) (m : Message) : Message :=
  m.flatMap fun s => match s with
    | .known _ (.message inner) => Message.only n inner
    | _ => []

/-- The slots that the options of a file have under a number. -/
def optionSlots (d : Descriptor) (n : Nat) : Message := slotsIn n (d.message.only 8)

/-- A place that neither leads to a file option nor lies at or below it. -/
def Aside (n : Nat) (q : List Nat) (_ _ : Message) : Prop := ¬ q <+: [8, n] ∧ ¬ [8, n] <+: q

theorem slotsIn_eq (h : Differs (Aside n) p m m') (hp : p = [8]) : slotsIn n m' = slotsIn n m := by
  induction h with
  | same => rfl
  | allowed h =>
    subst hp
    exact absurd (by simp) h.1
  | message hk hk' h =>
    subst hp
    have := (h n).eq fun q k k' hq hmay => hmay.2 hq
    simp [slotsIn, this]
  | created hk h =>
    subst hp
    have := (h n).eq fun q k k' hq hmay => hmay.2 hq
    simp [slotsIn, ← this]
  | element => rfl
  | trans _ _ ih ih' => exact (ih' hp).trans (ih hp)

/-- A file option keeps what it had. -/
structure KeepsOption (o : FileOption) (d e : Descriptor) : Prop where
  value : e.fileOption? o.name = d.fileOption? o.name
  slots : ∀ n, o.fieldNumber? = some n → e.optionSlots n = d.optionSlots n

/-- What is done to a descriptor is done aside from a file option. -/
structure Bypasses (o : FileOption) (d e : Descriptor) : Prop where
  value : e.fileOption? o.name = d.fileOption? o.name
  aside : ∀ n, o.fieldNumber? = some n →
    ∀ i, Differs (Aside n) [i] (d.message.only i) (e.message.only i)

theorem Bypasses.refl (o : FileOption) (d : Descriptor) : Bypasses o d d :=
  ⟨rfl, fun _ _ _ => .same _ _⟩

theorem Bypasses.trans (h : Bypasses o d e) (h' : Bypasses o e k) : Bypasses o d k :=
  ⟨h'.value.trans h.value, fun n hn i => (h.aside n hn i).trans (h'.aside n hn i)⟩

theorem Bypasses.keeps (h : Bypasses o d e) : KeepsOption o d e :=
  ⟨h.value, fun n hn => slotsIn_eq (h.aside n hn 8) rfl⟩

theorem Touched.bypasses (h : Touched may ns d e) (hv : e.fileOption? o.name = d.fileOption? o.name)
    (hm : ∀ n q k k', may q k k' → Aside n q k k') : Bypasses o d e :=
  ⟨hv, fun n _ i => (h.message i).mono fun q k k' _ => hm n q k k'⟩

theorem SetsFileOption.bypasses (h : SetsFileOption o n s d e) (hn : o.fieldNumber? = some n)
    (hne : o' ≠ o) : Bypasses o' d e := by
  refine ⟨h.others o' hne, fun j hj i => (h.touched.message i).mono fun q k k' _ hq => ?_⟩
  obtain rfl : q = [8, n] := hq
  have hjn : j ≠ n := by
    rintro rfl
    exact hne (FileOption.fieldNumber?_inj hj hn)
  simp [Aside, List.cons_prefix_cons, hjn, hjn.symm]

/-- A place under another number than that of the options is aside. -/
theorem aside_of_head {i : Nat} {q : List Nat} (hi : i ≠ 8) (n : Nat) (k k' : Message) :
    Aside n (i :: q) k k' := by
  simp [Aside, List.cons_prefix_cons, hi, hi.symm]

theorem Sweeps.bypasses {paths : List (List Int32)} (h : Sweeps paths d e) (hd : d.Mirrored)
    (o : FileOption) : Bypasses o d e :=
  h.touched.bypasses (h.fileOption? hd o.name) fun n q k k' hq => by
    rw [hq.1]
    exact aside_of_head (by decide) n k k'

end Descriptor

namespace Managed
open Descriptor Modifying

variable {C : Config} {f g : ImageFile} {p : Progress} {o : FileOption}
  {s : FileOption × (ImageFile → Except Error (Option Scalar))}
  {l : List (FileOption × (ImageFile → Except Error (Option Scalar)))}

/-- A step towards another option, or towards no value, bypasses an option. -/
theorem OptionsSet.step_bypasses (hs : s ∈ optionSteps C) (h : OptionsSet C f p)
    (hnone : s.1 = o → s.2 f = .ok none) (hm : Meant (runOn (modifyOption s.1 s.2) p).1) :
    Bypasses o p.file.descriptor (runOn (modifyOption s.1 s.2) p).2.file.descriptor := by
  obtain ⟨n, hn⟩ := exists_fieldNumber hs
  rcases modifyOption_cases h.touched.mirrored hn hm with
    ⟨e, hrun⟩ | ⟨hrun, -⟩ | ⟨v, d, hv, -, hset, hrun⟩
  · rw [hrun]
    exact .refl _ _
  · rw [hrun]
    exact .refl _ _
  · rw [hrun]
    refine hset.bypasses hn fun he => ?_
    rw [h.steady.value hs, hnone he.symm] at hv
    cases hv

theorem OptionsSet.run_bypasses (hl : ∀ s ∈ l, s ∈ optionSteps C) (hd : (l.map (·.1)).Nodup)
    (h : OptionsSet C f p)
    (hnew : ∀ s ∈ l, p.file.descriptor.fileOption? s.1.name = f.descriptor.fileOption? s.1.name)
    (hnone : ∀ s ∈ l, s.1 = o → s.2 f = .ok none)
    (hm : Meant (runOn (l.forM fun s => modifyOption s.1 s.2) p).1) :
    Bypasses o p.file.descriptor
      (runOn (l.forM fun s => modifyOption s.1 s.2) p).2.file.descriptor := by
  induction l generalizing p with
  | nil => exact .refl _ _
  | cons s l ih =>
    obtain ⟨hfirst, hrest⟩ := List.nodup_cons.mp hd
    obtain ⟨hs, hl⟩ := List.forall_mem_cons.mp hl
    obtain ⟨hnone, hnones⟩ := List.forall_mem_cons.mp hnone
    rw [runOn_forM_cons] at hm ⊢
    have hstep := h.step hs (hnew s (by simp))
    have hbypasses := h.step_bypasses hs hnone
    generalize runOn (modifyOption s.1 s.2) p = outcome at hm hstep hbypasses ⊢
    obtain ⟨r, q⟩ := outcome
    cases r with
    | error e => exact hbypasses hm
    | ok u =>
      obtain ⟨hq, hothers, -⟩ := hstep (meant_ok _)
      have hother : ∀ s' ∈ l, q.file.descriptor.fileOption? s'.1.name =
          f.descriptor.fileOption? s'.1.name := fun s' hs' =>
        (hothers s'.1 fun he => hfirst (List.mem_map.mpr ⟨s', hs', he⟩)).trans
          (hnew s' (List.mem_cons_of_mem _ hs'))
      exact (hbypasses (meant_ok _)).trans (ih hl hrest hq hother hnones hm)

/-- Fields are aside from the options of the file. -/
theorem modifyJsTypes_bypasses (h : p.file.descriptor.Mirrored)
    (ha : p.file.descriptor.decl.Addressable) (hm : Meant (runOn (modifyJsTypes C) p).1) :
    Bypasses o p.file.descriptor (runOn (modifyJsTypes C) p).2.file.descriptor := by
  rcases modifyJsTypes_cases h ha hm with ⟨e, hrun⟩ | ⟨l, d, hd, -, hl, -, hrun⟩
  · rw [hrun]
    exact .refl _ _
  · rw [hrun]
    have hleads : ∀ c ∈ l, FileLeads c.1 := by
      intro c hc
      obtain ⟨v, hv, hp, -⟩ := (hl c.1 c.2).mp hc
      rw [hp]
      exact ha.leads hv
    have hoptions := hd.touched.fileOption? h (fun q k k' hq hmem => by
      obtain ⟨c, hc, rfl⟩ := hmem
      exact not_prefix_place (hleads c hc) hq) o.name
    refine hd.touched.bypasses hoptions fun n q k k' hmem => ?_
    obtain ⟨c, hc, rfl⟩ := hmem
    have hlead := hleads c hc
    generalize c.1 = path at hlead ⊢
    cases hlead with
    | message i h => exact aside_of_head (by decide) n k k'
    | extension i => exact aside_of_head (by decide) n k k'

theorem modifyFile_bypasses (hf : f.descriptor.Mirrored) (ha : f.descriptor.decl.Addressable)
    (hs : s ∈ optionSteps C) (hnone : s.2 f = .ok none)
    (hm : Meant (runOn (modifyFile C) { file := f }).1) :
    Bypasses s.1 f.descriptor (runOn (modifyFile C) { file := f }).2.file.descriptor := by
  have hnones : ∀ s' ∈ optionSteps C, s'.1 = s.1 → s'.2 f = .ok none := fun s' hs' he => by
    rw [List.inj_on_of_nodup_map (optionSteps_nodup C) hs' hs he]
    exact hnone
  have hset := OptionsSet.run (fun s hs => hs) (optionSteps_nodup C) (.start (C := C) hf) fun _ _ =>
    rfl
  have hbypasses := OptionsSet.run_bypasses (fun s hs => hs) (optionSteps_nodup C)
    (.start (C := C) hf)
    (fun _ _ => rfl) hnones
  rw [modifyFile_eq, runOn_bind] at hm ⊢
  generalize runOn ((optionSteps C).forM fun s => modifyOption s.1 s.2) { file := f } = outcome
    at hm hset hbypasses ⊢
  obtain ⟨r, p⟩ := outcome
  cases r with
  | error e => exact hbypasses hm
  | ok u =>
    have htouched := (hset (meant_ok _)).1.touched
    exact (hbypasses (meant_ok _)).trans
      (modifyJsTypes_bypasses htouched.mirrored (htouched.addressable (by decide) ha) hm)

/-- An option that is to have no value keeps what it had. -/
theorem keeps_of_rewrite (hf : f.descriptor.Mirrored) (ha : f.descriptor.decl.Addressable)
    (hk : f.isWellKnown = false) (h : rewrite C f = some g) (hs : s ∈ optionSteps C)
    (hnone : s.2 f = .ok none) : KeepsOption s.1 f.descriptor g.descriptor := by
  obtain ⟨p, hrun, -, -, hmirrored, hsweeps⟩ := exists_run_of_rewrite hf ha hk h
  have hbypasses := modifyFile_bypasses hf ha hs hnone (hrun ▸ meant_ok ())
  rw [hrun] at hbypasses
  exact (hbypasses.trans (hsweeps.bypasses hmirrored s.1)).keeps

end Managed
end DescriptorKit
