import DescriptorKit.Descriptor.Modify
import DescriptorKit.Proofs.Message.Held

/-!
Changes to the options and the source locations of a message. Each change sets fields of the
message one after the other to values of their kind, and leaves what other numbers hold alone.
-/
namespace DescriptorKit

namespace Value

variable {S : Schema} {f : Field} {v : Value} {vs : List Value} {s : Scalar} {n : Nat}

theorem eachTyped_iff : EachTyped S f vs ↔ ∀ v ∈ vs, Typed S f v := by
  induction vs with
  | nil => simp [EachTyped]
  | cons v vs ih => simp [EachTyped, ih]

theorem fits_of_fits (h : (Value.scalar s).fits f = true) : s.Fits f.kind := by
  unfold fits at h
  generalize f.kind = k at h ⊢
  split at h
  · rename_i n hv
    obtain rfl := Value.scalar.inj hv
    split at h
    · constructor
    · cases h
  · rename_i s' _ hv
    obtain rfl := Value.scalar.inj hv
    split at h <;> first
      | constructor
      | cases h
  · cases h

theorem default_typed (hf : f.Regular) : Typed S f (S.default f) := by
  unfold Schema.default
  split
  · rw [Typed, EachTyped]
    trivial
  · split
    · rename_i s hs
      rw [Typed]
      unfold Schema.scalarDefault? at hs
      cases hd : f.declaredDefault with
      | some d =>
        rw [hd] at hs
        obtain rfl := Option.some.inj hs
        exact hf.default_fits d hd
      | none =>
        rw [hd] at hs
        cases hk : f.kind with
        | scalar k =>
          rw [hk] at hs
          obtain rfl := Option.some.inj hs
          exact k.zero_fits
        | enum type =>
          rw [hk] at hs
          obtain rfl := Option.some.inj hs
          constructor
        | message type =>
          rw [hk] at hs
          cases hs
        | group type =>
          rw [hk] at hs
          cases hs
    · rw [Typed]
      exact Or.inr (Or.inl rfl)

end Value

namespace Message

variable {S : Schema} {t u : MessageType} {f g : Field} {m m' k : Message} {v : Value}
  {vs : List Value} {P Q : Field → Prop} {n : Nat} {name : String} {s : Scalar}

theorem typed_iff : Typed S t m ↔ ∀ s ∈ m, s.Typed S t := by
  induction m with
  | nil => simp [Typed]
  | cons s m ih => simp [Typed, ih]

theorem Typed.nil : Typed S t [] := by
  rw [Typed]
  trivial

theorem Typed.value (h : Typed S t m) (hf : Slot.known f v ∈ m) :
    S.field? t f.number = some f ∧ v.Typed S f := by
  have := typed_iff.mp h _ hf
  rwa [Slot.Typed] at this

theorem Typed.declared (h : Typed S t m) : Declared S t m := fun _ _ hf => (h.value hf).1

theorem Typed.set (h : Typed S t m) (hf : S.field? t f.number = some f) (hv : v.Typed S f) :
    Typed S t (m.set f v) := by
  refine typed_iff.mpr fun s hs => ?_
  rcases mem_set hs with rfl | hs
  · rw [Slot.Typed]
    exact ⟨hf, hv⟩
  · exact typed_iff.mp h s hs

theorem Typed.get? (h : Typed S t m) (hf : S.field? t f.number = some f)
    (hv : m.get? f = some v) : v.Typed S f := by
  obtain ⟨g, hg, hh⟩ := mem_of_get? hv
  obtain ⟨hgf, hgv⟩ := h.value hg
  rw [show g.number = f.number from Slot.number_of_holds hh, hf] at hgf
  rwa [Option.some.inj hgf]

theorem Typed.get (h : Typed S t m) (hf : S.field? t f.number = some f) (hreg : f.Regular) :
    (m.get S f).Typed S f := by
  rw [Message.get]
  cases hv : m.get? f with
  | none => exact Value.default_typed hreg
  | some v => exact h.get? hf hv

/-- The message in a field of the type, as far as it is one. -/
theorem Typed.inner {inner : Message} (h : (Value.message inner).Typed S f)
    (hu : S.messageOf? f = some u) : f.map = true ∨ Typed S u inner := by
  rw [Value.Typed] at h
  rcases h with hm | rfl | ⟨u', hu', hi⟩
  · exact Or.inl hm
  · exact Or.inr .nil
  · rw [hu] at hu'
    obtain rfl := Option.some.inj hu'
    exact Or.inr hi

theorem typed_message {inner : Message} (hu : S.messageOf? f = some u)
    (h : f.map = true ∨ Typed S u inner) : (Value.message inner).Typed S f := by
  rw [Value.Typed]
  exact h.imp id fun hi => Or.inr ⟨u, hu, hi⟩

/-- Setting fields of which `P` holds to values of their kinds, one after the other. -/
inductive Edits (S : Schema) (t : MessageType) (P : Field → Prop) (m : Message) :
    Message → Prop where
  | refl : Edits S t P m m
  | set {m' : Message} {f : Field} {v : Value} (h : Edits S t P m m') (hf : f ∈ t.fields)
      (hp : P f) (hv : v.Typed S f) : Edits S t P m (m'.set f v)

namespace Edits

theorem typed (h : Edits S t P m m') (hS : S.Regular) (ht : t ∈ S.messages) (hm : Typed S t m) :
    Typed S t m' := by
  induction h with
  | refl => exact hm
  | set _ hf _ hv ih => exact ih.set (hS.field?_of_mem ht hf) hv

theorem sorted (h : Edits S t P m m') (hm : m.Sorted) : m'.Sorted := by
  induction h with
  | refl => exact hm
  | set _ _ _ _ ih => exact ih.set _ _

/-- What is held under a number that is not edited stays as it is. -/
theorem only (h : Edits S t P m m') (hS : S.Regular) (ht : t ∈ S.messages) (hm : Typed S t m)
    (hs : m.Sorted) (hc : Calm S t n) (hp : ∀ f ∈ t.fields, P f → f.number ≠ n) :
    m'.only n = m.only n := by
  induction h with
  | refl => rfl
  | @set m' f v h hf hpf _ ih =>
    have hd := (h.typed hS ht hm).declared
    rw [only_set_ne (h.sorted hs) (fun s hs hk => hd.not_rivals hc hs hk f) (hp f hf hpf), ih]

end Edits

theorem touch_edits (hS : S.Regular) (ht : t ∈ S.messages) (hm : Typed S t m) (hf : f ∈ t.fields)
    (hp : P f) : Edits S t P m (m.touch S f) :=
  .set .refl hf hp (hm.get (hS.field?_of_mem ht hf) (hS.fields t ht f hf))

theorem setNamed_typed (hS : S.Regular) (ht : t ∈ S.messages) (hm : Typed S t m)
    (h : setNamed S t name s m = .ok m') : Typed S t m' := by
  unfold setNamed at h
  split at h
  · cases h
  · rename_i f hf
    split at h
    · rename_i hfit
      obtain rfl := Except.ok.inj h
      refine hm.set (hS.field?_of_named ht hf) ?_
      rw [Value.Typed]
      exact Value.fits_of_fits hfit
    · cases h

theorem setOption_edits (hS : S.Regular) (ht : t ∈ S.messages) (hm : Typed S t m)
    (name : String) (s : Scalar) (a : Breach) (b : SetFault → Breach) :
    Edits S t (fun f => f.name = "options") m (m.setOption S t name s a b).1 := by
  unfold setOption
  split
  · exact .refl
  · rename_i f hf
    have hmem : f ∈ t.fields := List.mem_of_find?_eq_some hf
    have hname : f.name = "options" := by simpa using List.find?_some hf
    have hreg := hS.fields t ht f hmem
    have hfield := hS.field?_of_mem ht hmem
    have htouch : Edits S t (fun f => f.name = "options") m (m.touch S f) :=
      touch_edits hS ht hm hmem hname
    dsimp only
    split
    · rename_i options u hv hu
      have hin := Typed.inner (hv ▸ (htouch.typed hS ht hm).get hfield hreg) hu
      split
      · rename_i options' ho
        refine .set htouch hmem hname (typed_message hu (hin.imp id fun hi => ?_))
        exact setNamed_typed hS (Schema.mem_of_messageOf? hu) hi ho
      · exact htouch
    · exact htouch

/-- The number that a path starts with. -/
def Heads (path : List Int32) (f : Field) : Prop :=
  match path with
  | [] => f.name = "options"
  | number :: _ => f.number = number.toInt.toNat

theorem setAt_typed (hv : Value.Typed S f (.many vs)) (i : Nat) (h : v.Typed S f) :
    Value.Typed S f (.many (vs.set i v)) := by
  rw [Value.Typed, Value.eachTyped_iff] at hv ⊢
  intro w hw
  rcases List.mem_or_eq_of_mem_set hw with hw | rfl
  · exact hv w hw
  · exact h

theorem updateAt_edits (hS : S.Regular) (missing : Breach) (name : String) (s : Scalar)
    (a : Breach) (b : SetFault → Breach) :
    ∀ (path : List Int32) (t : MessageType) (m : Message), t ∈ S.messages → Typed S t m →
      Edits S t (Heads path) m
        (updateAt S missing (fun t m => m.setOption S t name s a b) path t m).1
  | [], t, m, ht, hm => setOption_edits hS ht hm name s a b
  | [_], t, m, ht, hm => .refl
  | number :: index :: rest, t, m, ht, hm => by
    unfold updateAt
    split
    · exact .refl
    · rename_i f hf
      have hnum : t.fieldNumbered? number.toInt.toNat = some f := by
        split at hf
        · exact hf
        · cases hf
      have hmem : f ∈ t.fields := List.mem_of_find?_eq_some hnum
      have hhead : Heads (number :: index :: rest) f := by
        simpa [Heads] using List.find?_some hnum
      have hreg := hS.fields t ht f hmem
      have hfield := hS.field?_of_mem ht hmem
      have htouch : Edits S t (Heads (number :: index :: rest)) m (m.touch S f) :=
        touch_edits hS ht hm hmem hhead
      dsimp only
      split
      · rename_i vs u hv hu
        have hvs : Value.Typed S f (.many vs) := hv ▸ (htouch.typed hS ht hm).get hfield hreg
        split
        · rename_i inner hinner
          have hin : (Value.message inner).Typed S f := by
            split at hinner
            · rw [Value.Typed, Value.eachTyped_iff] at hvs
              exact hvs _ (List.mem_of_getElem? hinner)
            · cases hinner
          have hu' := Schema.mem_of_messageOf? hu
          refine .set htouch hmem hhead (setAt_typed hvs _ (typed_message hu ?_))
          rcases Typed.inner hin hu with hmap | hi
          · exact Or.inl hmap
          · have hedits := updateAt_edits hS missing name s a b rest _ inner hu' hi
            exact Or.inr (hedits.typed hS hu' hi)
        · exact htouch
      · exact htouch

theorem isSome_scalarDefault? (hk : f.kind.Single) : (S.scalarDefault? f).isSome := by
  rw [Schema.scalarDefault?]
  cases f.declaredDefault with
  | some s => rfl
  | none =>
    cases hkind : f.kind with
    | scalar k => rfl
    | enum type => rfl
    | message type => exact absurd hkind (hk.2 type)
    | group type => exact absurd (by rw [hkind]; rfl) hk.1

/-- What an unset field reads as can be kept in the field, where the field has something to hold. -/
theorem default_shaped (hf : f.Regular)
    (hr : f.repeated = true ∨ (S.scalarDefault? f).isSome ∨ (S.messageOf? f).isSome) :
    Value.Shaped S f (!f.repeated) (S.default f) := by
  have htyped := Value.default_typed (S := S) hf
  unfold Schema.default at htyped ⊢
  split
  · rename_i hrep
    rw [Value.Shaped, hrep, Value.AllShaped]
    exact ⟨rfl, trivial⟩
  · rename_i hrep
    rw [if_neg hrep] at htyped
    have hone : (!f.repeated) = true := by simpa using hrep
    cases hs : S.scalarDefault? f with
    | some s =>
      rw [hs, Value.Typed] at htyped
      rw [Value.Shaped]
      exact ⟨hone, htyped⟩
    | none =>
      rw [hs] at hr
      obtain ⟨u, hu⟩ := Option.isSome_iff_exists.mp
        ((hr.resolve_left hrep).resolve_left Bool.false_ne_true)
      rw [Value.Shaped]
      exact ⟨hone, Or.inr ⟨u, hu, .nil⟩⟩

end Message

namespace Descriptor
open Message

variable {d : Descriptor} {f : Field} {m : Message}

theorem dropLocations_edits (hS : d.schema.Regular) (ht : d.type ∈ d.schema.messages)
    (hm : Typed d.schema d.type m) (hf : d.type.fieldNamed? "source_code_info" = some f)
    (paths : List (List Int32)) :
    Edits d.schema d.type (· = f) m (d.dropLocations paths f m).1 := by
  have hmem : f ∈ d.type.fields := List.mem_of_find?_eq_some hf
  have hreg := hS.fields _ ht f hmem
  have hfield := hS.field?_of_mem ht hmem
  have htouch : Edits d.schema d.type (· = f) m (m.touch d.schema f) :=
    touch_edits hS ht hm hmem rfl
  unfold dropLocations
  dsimp only
  split
  · rename_i info u hv hu
    have hin := Typed.inner (hv ▸ (htouch.typed hS ht hm).get hfield hreg) hu
    have hu' := Schema.mem_of_messageOf? hu
    split
    · exact htouch
    · rename_i g hg
      have hgmem : g ∈ u.fields := List.mem_of_find?_eq_some hg
      have hgfield := hS.field?_of_mem hu' hgmem
      have hginfo : f.map = true ∨ Typed d.schema u (touch d.schema g info) :=
        hin.imp id fun hi => hi.set hgfield (hi.get hgfield (hS.fields u hu' g hgmem))
      split
      · rename_i locations hl
        refine .set htouch hmem rfl (typed_message hu (hginfo.imp id fun hi => ?_))
        refine hi.set hgfield ?_
        have hls := hl ▸ hi.get hgfield (hS.fields u hu' g hgmem)
        rw [Value.Typed, Value.eachTyped_iff] at hls ⊢
        exact fun v hv => hls v (List.mem_filter.mp hv).1
      · exact .set htouch hmem rfl (typed_message hu hginfo)
  · exact htouch

end Descriptor
end DescriptorKit
