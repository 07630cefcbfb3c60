import DescriptorKit.Proofs.Message.Nested

/-!
Schemas that agree with another one about all that both declare. What the one takes for a field of
some kind, the other takes for the same.
-/
namespace DescriptorKit
open Message

/-- A field is declared as another one is: the values that it holds are read, kept and written in
the same way. -/
structure Field.Same (f g : Field) : Prop where
  number : f.number = g.number
  name : f.name = g.name
  kind : f.kind = g.kind
  repeated : f.repeated = g.repeated
  presence : f.presence = g.presence
  map : f.map = false
  oneof : f.oneof = none

instance (f g : Field) : Decidable (f.Same g) :=
  decidable_of_iff (f.number = g.number ∧ f.name = g.name ∧ f.kind = g.kind ∧
    f.repeated = g.repeated ∧ f.presence = g.presence ∧ f.map = false ∧ f.oneof = none)
    ⟨fun ⟨hn, hname, hk, hr, hp, hm, ho⟩ => ⟨hn, hname, hk, hr, hp, hm, ho⟩,
      fun h => ⟨h.number, h.name, h.kind, h.repeated, h.presence, h.map, h.oneof⟩⟩

namespace Schema

/-- What two schemas take one name of a type for. -/
def Counterpart (S B : Schema) (t u : MessageType) : Prop :=
  ∃ type, S.message? type = some t ∧ B.message? type = some u

theorem Counterpart.left {S B : Schema} {t u : MessageType} (h : Counterpart S B t u) :
    t ∈ S.messages := by
  obtain ⟨type, ht, -⟩ := h
  exact (mem_of_message? ht).1

theorem Counterpart.right {S B : Schema} {t u : MessageType} (h : Counterpart S B t u) :
    u ∈ B.messages := by
  obtain ⟨type, -, hu⟩ := h
  exact (mem_of_message? hu).1

theorem Counterpart.eq {S : Schema} {t u : MessageType} (h : Counterpart S S t u) : t = u := by
  obtain ⟨type, ht, hu⟩ := h
  exact Option.some.inj (ht.symm.trans hu)

/-- The schema declares fields that it shares with another one, by number or by name, as the other
does, and has the types of the messages in them. -/
structure Mirrors (S B : Schema) : Prop where
  numbered : ∀ {t u f g n}, Counterpart S B t u → S.field? t n = some f → B.field? u n = some g →
    f.Same g
  named : ∀ {t u f g name}, Counterpart S B t u → t.fieldNamed? name = some f →
    u.fieldNamed? name = some g → f.number = g.number
  types : ∀ {t u f g n type}, Counterpart S B t u → S.field? t n = some f →
    B.field? u n = some g → g.kind = .message type → (B.message? type).isSome →
      (S.message? type).isSome
  entries : ∀ {t u}, Counterpart S B t u → t.mapEntry = false

namespace Mirrors

variable {S B : Schema} {t u v : MessageType} {f g : Field} {n : Nat} {name : String}

/-- The field that a name stands for is that of its counterpart. -/
theorem same_of_named (hM : S.Mirrors B) (hS : S.Regular) (hc : Counterpart S B t u)
    (hf : t.fieldNamed? name = some f) (hg : B.field? u g.number = some g)
    (hn : u.fieldNamed? name = some g) : S.field? t g.number = some f ∧ f.Same g := by
  have hfield := hS.field?_of_named hc.left hf
  rw [hM.named hc hf hn] at hfield
  exact ⟨hfield, hM.numbered hc hfield hg⟩

theorem plain (hM : S.Mirrors B) (hc : Counterpart S B t u) (hg : Plain B u n g)
    (hf : S.field? t n = some f) : Plain S t n f := by
  have hsame := hM.numbered hc hf hg.field
  exact ⟨hf, hsame.kind ▸ hg.single, hsame.map⟩

theorem holds (hM : S.Mirrors B) (hc : Counterpart S B t u) (hg : Holds B u n g v)
    (hf : S.field? t n = some f) : ∃ w, Holds S t n f w ∧ Counterpart S B w v := by
  have hsame := hM.numbered hc hf hg.field
  obtain ⟨type, hk⟩ := hg.kind
  have hkf : f.kind = .message type := hsame.kind.trans hk
  have hv : B.message? type = some v := by
    rw [← Schema.messageOf?_eq (Or.inl hk)]
    exact hg.type
  obtain ⟨w, hw⟩ := Option.isSome_iff_exists.mp
    (hM.types hc hf hg.field hk (Option.isSome_iff_exists.mpr ⟨v, hv⟩))
  refine ⟨w, ⟨hf, ⟨type, hkf⟩, ?_, hsame.map⟩, ⟨type, hw, hv⟩⟩
  rw [Schema.messageOf?_eq (Or.inl hkf)]
  exact hw

end Mirrors

end Schema
end DescriptorKit
