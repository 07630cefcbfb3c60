import DescriptorKit.Descriptor
import DescriptorKit.Proofs.Message.Held

/-!
The schema that typed messages are read by: what it declares for the name and the imports of a file,
and that messages of its types can be filled in.
-/
namespace DescriptorKit
open Wire

namespace Schema

/-- A schema whose required fields hold single scalars. -/
theorem Regular.fills {S : Schema} (hS : S.Regular) (h : ∀ t ∈ S.messages, ∀ f ∈ t.fields,
    f.required = true → f.repeated = false ∧ ∃ k, f.kind = .scalar k) : S.Fills := by
  intro t ht f hf hr
  obtain ⟨hrep, k, hk⟩ := h t ht f hf hr
  refine ⟨hS.field?_of_mem ht hf, hrep, ?_⟩
  unfold default scalarDefault?
  rw [hrep, hk]
  cases hd : f.declaredDefault with
  | none => exact ⟨k.zero, rfl, k.zero_fits⟩
  | some s => exact ⟨s, rfl, hk ▸ (hS.fields t ht f hf).default_fits s hd⟩

end Schema

namespace Bundled

/-- Whether values of the kind are scalars. -/
def isScalar : Kind → Bool
  | .scalar _ => true
  | _ => false

def nameField : Field := { number := 1, name := "name", kind := .scalar .string }

def dependencyField : Field :=
  { number := 3, name := "dependency", kind := .scalar .string, repeated := true,
    presence := false }

def publicField : Field :=
  { number := 10, name := "public_dependency", kind := .scalar .int32, repeated := true
    presence := false }

/-- What there is to compute about the schema of descriptors, computed at once. -/
theorem descriptorSchema_facts :
    (∀ t ∈ descriptorSchema.messages, (t.fields.map (·.number)).Nodup) ∧
    (∀ t ∈ descriptorSchema.messages, ∀ f ∈ t.fields,
      f.required = true → f.repeated = false ∧ isScalar f.kind = true) ∧
    (descriptorSchema.message? fileTypeName).isSome ∧
    (∀ f ∈ fileType.fields, f.required = false) ∧
    ∀ g ∈ [nameField, dependencyField, publicField],
      descriptorSchema.field? fileType g.number = some g := by
  decide +kernel

theorem descriptorFile_numbered : ∀ t ∈ descriptorSchema.messages,
    (t.fields.map (·.number)).Nodup :=
  descriptorSchema_facts.1

theorem descriptorSchema_regular : descriptorSchema.Regular :=
  Schema.ofFilesIn_regular_of descriptorFile_numbered

theorem descriptorSchema_fills : descriptorSchema.Fills := by
  refine descriptorSchema_regular.fills ?_
  intro t ht f hf hr
  obtain ⟨hrep, hk⟩ := descriptorSchema_facts.2.1 t ht f hf hr
  refine ⟨hrep, ?_⟩
  cases hkind : f.kind with
  | scalar k => exact ⟨k, rfl⟩
  | _ => rw [hkind] at hk; cases hk

theorem message?_fileType : descriptorSchema.message? fileTypeName = some fileType := by
  obtain ⟨t, ht⟩ := Option.isSome_iff_exists.mp descriptorSchema_facts.2.2.1
  rw [fileType, ht]
  rfl

theorem fileType_mem : fileType ∈ descriptorSchema.messages :=
  (Schema.mem_of_message? message?_fileType).1

theorem required_fileType : ∀ f ∈ fileType.fields, f.required = false :=
  descriptorSchema_facts.2.2.2.1

/-- The field is one of single values in the descriptor of a file, and in no oneof. -/
structure Declares (g : Field) : Prop where
  plain : Message.Plain descriptorSchema fileType g.number g
  oneof : g.oneof = none

theorem declares_of_scalar {g : Field} (hf : descriptorSchema.field? fileType g.number = some g)
    (hk : isScalar g.kind = true) (hm : g.map = false) (ho : g.oneof = none) : Declares g := by
  refine ⟨⟨hf, ?_, hm⟩, ho⟩
  rcases g.kind.single_or_nested with h | ⟨type, h | h⟩
  · exact h
  all_goals
    rw [h] at hk
    cases hk

theorem declares_name : Declares nameField :=
  declares_of_scalar (descriptorSchema_facts.2.2.2.2 nameField (by simp)) rfl rfl rfl

theorem declares_dependency : Declares dependencyField :=
  declares_of_scalar (descriptorSchema_facts.2.2.2.2 dependencyField (by simp)) rfl rfl
    rfl

theorem declares_public : Declares publicField :=
  declares_of_scalar (descriptorSchema_facts.2.2.2.2 publicField (by simp)) rfl rfl rfl

theorem Declares.calm {g : Field} (h : Declares g) :
    Message.Calm descriptorSchema fileType g.number := by
  intro f hf
  rw [h.plain.field] at hf
  obtain rfl := Option.some.inj hf
  exact h.oneof

end Bundled
end DescriptorKit
