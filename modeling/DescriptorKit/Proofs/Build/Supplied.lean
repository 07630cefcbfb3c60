import DescriptorKit.Proofs.Build.Supply
import DescriptorKit.Proofs.Language.Named

/-!
What is supplied. Whether a file was read ahead or not, what is supplied for a path is the file that
is found under its normal form, or a bundled one; where a bucket is read from, the origin that is
recorded of a path is that of the file in the bucket.
-/
namespace DescriptorKit
namespace Build
open DescriptorKit.Language

namespace Supply

variable {R : SourceReader} {s s' : Supply} {asked path : String} {f g : SourceFile}
  {before after : List String} {answer : Except Error (Option SourceFile)} {unit unit' : SourceUnit}
  {result : Except SupplyFault SourceUnit}

/-- The file that is supplied for a path: what was found there, or a bundled file. -/
inductive Supplied (R : SourceReader) (before : List String) (path : String) :
    SourceUnit → Prop where
  | found {f : SourceFile} {unit : SourceUnit} (answered : Answered R before path (.ok (some f)))
      (parsed : SourceUnit.parse path (Text.lossy f.content) = .ok unit) :
        Supplied R before path unit
  | bundled {file : FileDecl} (answered : Answered R before path (.ok none))
      (held : Bundled.file? path = some file) : Supplied R before path ⟨[], file, []⟩

/-- A file is supplied under the path that it was looked up as. -/
theorem Supplied.name (h : Supplied R before path unit) : unit.file.name = path := by
  cases h with
  | found _ parsed => exact SourceUnit.name_of_parse parsed
  | bundled _ held => simpa using List.find?_some held

theorem Answered.mono (h : Answered R before path answer) (hm : before <:+ after) :
    Answered R after path answer := by
  obtain ⟨n, hn, ha⟩ := h
  exact ⟨n, Nat.lt_of_lt_of_le hn (hm.sublist.count_le path), ha⟩

theorem Supplied.mono (h : Supplied R before path unit) (hm : before <:+ after) :
    Supplied R after path unit := by
  cases h with
  | found ha hp => exact .found (ha.mono hm) hp
  | bundled ha hb => exact .bundled (ha.mono hm) hb

theorem Loads.lookups (h : Loads R s asked result s') : s.lookups <:+ s'.lookups := by
  cases h <;> simp [looked, fail]

/-- What loading a source gives was supplied. -/
theorem Loads.supplied (h : Loads R s asked result s') (hr : result = .ok unit) :
    ∃ path, Path.normalize asked = .ok path ∧ Supplied R s'.lookups path unit := by
  cases h with
  | bundled normal answer held =>
    obtain rfl := Except.ok.inj hr
    exact ⟨_, normal, .bundled (answered_self answer) held⟩
  | read normal answer =>
    refine ⟨_, normal, .found ?_ (mapError_eq_ok_iff.mp hr)⟩
    rw [marked_lookups]
    exact answered_self answer
  | _ => cases hr

/-- What was read ahead was supplied. -/
def Ready (R : SourceReader) (s : Supply) : Prop :=
  ∀ e ∈ s.ahead, ∃ path, Path.normalize e.1 = .ok path ∧ Supplied R s.lookups path e.2

theorem Ready.grow (h : Ready R s) (ha : s'.ahead ⊆ s.ahead) (hm : s.lookups <:+ s'.lookups) :
    Ready R s' := by
  intro e he
  obtain ⟨path, hn, hs⟩ := h e (ha he)
  exact ⟨path, hn, hs.mono hm⟩

theorem Loads.ahead (h : Loads R s asked result s') : s'.ahead = s.ahead := by
  have hmissing (s : Supply) (p : String) : (s.addMissing p).ahead = s.ahead := by
    rw [addMissing]
    split <;> rfl
  cases h with
  | read =>
    rw [marked]
    split <;> rfl
  | _ => simp [hmissing, looked, fail]

theorem Loads.ready (h : Loads R s asked result s') (hs : Ready R s) : Ready R s' :=
  hs.grow (by simp [h.ahead]) h.lookups

theorem mem_of_lookup {l : List (String × SourceUnit)} (h : l.lookup path = some unit) :
    (path, unit) ∈ l := by
  obtain ⟨l₁, l₂, rfl, -⟩ := List.lookup_eq_some_iff.mp h
  simp

theorem Reached.ready (h : Reached R s) : Ready R s := by
  induction h with
  | start => exact fun e he => by cases he
  | @ahead s path _ ih =>
    rw [readAhead_eq]
    have hloads := load_loads R s path
    split
    · exact ih
    · split
      all_goals rename_i hrun; rw [hrun] at hloads
      · exact hloads.ready ih
      · intro e he
        rcases List.mem_cons.mp he with rfl | he
        · exact hloads.supplied rfl
        · exact hloads.ready ih e he
  | @take s path _ ih =>
    rw [take_eq]
    split
    · exact ih.grow List.filter_sublist.subset (List.suffix_refl _)
    · exact (load_loads R s path).ready ih

/-- A source that is taken was supplied, when it was read ahead or just now. -/
theorem Reached.supplied (h : Reached R s) (ht : (Supply.take R asked).run s = (.ok unit, s')) :
    s.lookups <:+ s'.lookups ∧
      ∃ path, Path.normalize asked = .ok path ∧ Supplied R s'.lookups path unit := by
  rw [take_eq] at ht
  split at ht
  case h_1 u hu =>
    obtain ⟨hunit, rfl⟩ := Prod.mk.inj ht
    obtain rfl := Except.ok.inj hunit
    exact ⟨List.suffix_refl _, h.ready _ (mem_of_lookup hu)⟩
  case h_2 =>
    have hloads := load_loads R s asked
    rw [ht] at hloads
    exact ⟨hloads.lookups, hloads.supplied rfl⟩

/-- Each lookup of a path gets the same answer. -/
def Steady (R : SourceReader) : Prop := ∀ path n k, R.lookup path n = R.lookup path k

theorem Answered.unique {other : Except Error (Option SourceFile)} (hR : Steady R)
    (h : Answered R before path answer) (h' : Answered R after path other) : other = answer := by
  obtain ⟨n, -, rfl⟩ := h
  obtain ⟨k, -, rfl⟩ := h'
  exact hR path k n

/-- Where lookups get the same answers, the same file is served, and the same is supplied. -/
theorem Served.unique (hR : Steady R) (h : Served R before path f) (h' : Served R after path g) :
    g = f := by
  cases h with
  | found ha =>
    cases h' with
    | found ha' => exact Option.some.inj (Except.ok.inj (ha.unique hR ha'))
    | bundled ha' => cases ha.unique hR ha'
  | bundled ha =>
    cases h' with
    | found ha' => cases ha.unique hR ha'
    | bundled => rfl

theorem Supplied.unique (hR : Steady R) (h : Supplied R before path unit)
    (h' : Supplied R after path unit') : unit' = unit := by
  cases h with
  | found ha hp =>
    cases h' with
    | found ha' hp' =>
      obtain rfl := Option.some.inj (Except.ok.inj (ha.unique hR ha'))
      exact Except.ok.inj (hp'.symm.trans hp)
    | bundled ha' => cases ha.unique hR ha'
  | bundled ha hb =>
    cases h' with
    | found ha' => cases ha.unique hR ha'
    | bundled _ hb' => rw [Option.some.inj (hb'.symm.trans hb)]

end Supply
end Build

/-- What a build of the given targets reads from. -/
def Bucket.building (B : Bucket) (targets : List String) : SourceReader := { B.reader with targets }

namespace Bucket
open Build Build.Supply

variable {B : Bucket} {targets before : List String} {path : String} {f g : SourceFile} {s : Supply}
  {answer : Except Error (Option SourceFile)}

theorem path_of_file? (h : B.file? path = some f) : f.path = path := by
  simpa using List.find?_some h

theorem building_steady (B : Bucket) (targets : List String) : Steady (B.building targets) :=
  fun _ _ _ => rfl

theorem answered_iff :
    Answered (B.building targets) before path answer ↔
    path ∈ before ∧ .ok (B.file? path) = answer := by
  constructor
  · rintro ⟨n, hn, ha⟩
    exact ⟨List.count_pos_iff.mp (Nat.zero_lt_of_lt hn), ha⟩
  · rintro ⟨hp, ha⟩
    exact ⟨0, List.count_pos_iff.mpr hp, ha⟩

theorem path_of_served (h : Served (B.building targets) before path f) : f.path = path := by
  cases h with
  | found ha =>
    obtain ⟨-, ha⟩ := answered_iff.mp ha
    exact path_of_file? (Except.ok.inj ha)
  | bundled => rfl

/-- A bucket has one file at a path, so all that is served there tells the same. -/
theorem unanimous (B : Bucket) (targets before : List String) (path : String) :
    Unanimous (B.building targets) before path := by
  intro p q f g hf hg hp hq part
  obtain rfl : p = path := (path_of_served hf).symm.trans hp
  obtain rfl : q = p := (path_of_served hg).symm.trans hq
  rw [hf.unique (building_steady B targets) hg]

/-- What is recorded of a path that was served is what its file tells. -/
theorem noted_eq (h : Traced (B.building targets) s)
    (hf : Served (B.building targets) s.lookups path f)
    (part : OriginPart) : s.origins.noted part path = f.told part := by
  have htold := h.unanimous_map (B.unanimous targets s.lookups path) hf (path_of_served hf) part
  cases hn : s.origins.noted part path with
  | none =>
    rw [hn] at htold
    exact (Option.map_eq_none_iff.mp htold.symm).symm
  | some v =>
    obtain ⟨p, g, hg, hgpath, hv⟩ := h.told part path v hn
    obtain rfl : p = path := (path_of_served hg).symm.trans hgpath
    rw [← hv, hf.unique (building_steady B targets) hg]

end Bucket
end DescriptorKit
