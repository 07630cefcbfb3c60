import DescriptorKit.Proofs.Descriptor.JsType
import DescriptorKit.Proofs.Managed.Walk
import DescriptorKit.Proofs.Message.Deeper
import DescriptorKit.Proofs.Message.Readable

/-!
Where the paths of fields lead in the message of a descriptor. The message that the path of a
declared field leads to is the one that declares it, as far as the schema has the lists on the way.
-/
namespace DescriptorKit
open Wire Payload Bundled Message Managed

/-- By type, the lists in which fields are declared or that lead to those. -/
def Bundled.walkedFields : List (String × List Nat) := [
  (fileTypeName, [4, 7]),
  ("google.protobuf.DescriptorProto", [2, 3, 6])]

/-- The schema declares the lists in which fields are declared. -/
def Schema.Walkable (S : Schema) : Prop :=
  ∀ p ∈ walkedFields, ∀ t ∈ S.message? p.1, ∀ n ∈ p.2, (t.fieldNumbered? n).isSome

namespace Message

variable {S : Schema} {t u w : MessageType} {m k z inner : Message} {n depth : Nat} {type : String}
  {fields : List (String × List Nat)} {ns : List Nat} {path rest : List Int32} {name scope : String}
  {decl : FieldDecl}

variable (type ns) in
theorem isSome_of_declared
    (h : ∀ p ∈ fields, ∀ t ∈ S.message? p.1, ∀ n ∈ p.2, (t.fieldNumbered? n).isSome)
    (hp : (type, ns) ∈ fields) (hn : n ∈ ns) (hu : (descriptorSchema.message? type).isSome)
    (hc : Schema.Counterpart S descriptorSchema t (typeNamed type)) :
    (t.fieldNumbered? n).isSome := by
  obtain ⟨name, ht, hname⟩ := hc
  have hsame : name = type :=
    (Schema.mem_of_message? hname).2.symm.trans (Schema.mem_of_message? (message?_typeNamed hu)).2
  exact h _ hp t (hsame ▸ ht) n hn

/-- What is described by the messages in a list, one after the other, is described by one of
them. -/
theorem exists_described {α : Type} {F : Message → α} {l : List α} {d : α} {f : Field} {i : Nat}
    (hm : Shaped S t m) (hf : Holds S t n f u) (hr : f.repeated = true)
    (hl : ∀ {ks : List Message}, m.valuesOf f = ks.map Value.message → l = ks.map F)
    (hd : l[i]? = some d) :
    ∃ (ks : List Message) (z : Message), m.valuesOf f = ks.map Value.message ∧ ks[i]? = some z ∧
      F z = d := by
  obtain ⟨vs, -, hvs, honly⟩ := get_of_holds_many hm hf hr
  obtain ⟨ks, rfl, -⟩ := exists_map_message hvs
  have hks : m.valuesOf f = ks.map Value.message := by
    rw [valuesOf, ← get?_only (Schema.field?_number hf.field)]
    rcases honly with ⟨h, hnil⟩ | h
    · rw [h, hnil]
      rfl
    · rw [h, get?, if_pos (Slot.holds_known f _)]
      rfl
  rw [hl hks, List.getElem?_map, Option.map_eq_some_iff] at hd
  obtain ⟨z, hz, hd⟩ := hd
  exact ⟨ks, z, hks, hz, hd⟩

/-- A change along the path ends as it does when it is made to `inner`, a message of type `w`. -/
def GoesTo (S : Schema) (path : List Int32) (t : MessageType) (m : Message) (w : MessageType)
    (inner : Message) : Prop :=
  ∀ missing change, (updateAt S missing change path t m).2 = (change w inner).2

/-- A path leads to the message `inner`, in which a typed reader that goes no deeper than `depth`
finds what is declared. -/
structure FindsField (S : Schema) (depth : Nat) (decl : FieldDecl) (path : List Int32)
    (t : MessageType) (m : Message) (w : MessageType) (inner : Message) : Prop where
  reaches : GoesTo S path t m w inner
  counterpart : Schema.Counterpart S descriptorSchema w fieldType
  shaped : Shaped S w inner
  reads : ∃ d z, d ≤ depth ∧
    Steps (readField descriptorSchema .typed d fieldType) [] (Value.recordsOf inner) z ∧
      FieldDecl.ofMessage z = decl

theorem FindsField.here (hc : Schema.Counterpart S descriptorSchema t fieldType) (hm : Shaped S t m)
    (hz : Steps (readField descriptorSchema .typed depth fieldType) [] (Value.recordsOf m) z) :
    FindsField S depth (FieldDecl.ofMessage z) [] t m t m :=
  ⟨fun _ _ => rfl, hc, hm, depth, z, Nat.le_refl _, hz, rfl⟩

/-- A path goes on from the message that a typed reader found in a list. -/
theorem exists_findsField_element {g : Field} {v : MessageType} {ks : List Message} {number : Int32}
    {i : Nat} (hS : S.Regular) (hM : S.Mirrors descriptorSchema)
    (hc : Schema.Counterpart S descriptorSchema t u) (hg : Holds descriptorSchema u n g v)
    (hr : g.repeated = true) (hreq : ∀ f ∈ v.fields, f.required = false) (hn : number.toInt = n)
    (hi : i < 2 ^ 31) (hf : (t.fieldNumbered? n).isSome) (hm : Shaped S t m)
    (hk : Steps (readField descriptorSchema .typed depth u) [] (Value.recordsOf m) k)
    (hks : k.valuesOf g = ks.map Value.message) (hz : ks[i]? = some z)
    (hstep : ∀ {w inner d}, Schema.Counterpart S descriptorSchema w v → Shaped S w inner →
      Steps (readField descriptorSchema .typed d v) [] (Value.recordsOf inner) z →
        ∃ w' inner', FindsField S d decl rest w inner w' inner') :
    ∃ w' inner', FindsField S depth decl (number :: Int32.ofNat i :: rest) t m w' inner' := by
  obtain ⟨w, inner, d, y, hw, hin, rfl, hy, he, henter⟩ := updateAt_enters hM hS hc hg hr
    (calm hc.right) hn (Int32.toInt_ofNat_of_lt hi) hf hm hk hks hz
  rw [finish_of_none hreq] at he
  obtain ⟨w', inner', hreach, hw', hin', d', z', hd', hz', hdecl⟩ := hstep hw hin (he ▸ hy)
  refine ⟨w', inner', fun missing change => ?_, hw', hin', d', z', by omega, hz', hdecl⟩
  rw [henter, hreach]

/-- The path of a field that a message declares leads to what declares it. -/
theorem exists_findsField (hS : S.Regular) (hM : S.Mirrors descriptorSchema) (hwalk : S.Walkable)
    {D : MessageDecl} (h : D.HasField scope path name decl) : ∀ {t m k depth},
      Schema.Counterpart S descriptorSchema t messageType → Shaped S t m →
        Steps (readField descriptorSchema .typed depth messageType) [] (Value.recordsOf m) k →
          MessageDecl.ofMessage k = D →
            ∃ w inner, FindsField S depth decl path t m w inner := by
  have hlist : ∀ {t n}, Schema.Counterpart S descriptorSchema t messageType → n ∈ [2, 3, 6] →
      (t.fieldNumbered? n).isSome := fun hc hn =>
    isSome_of_declared _ _ hwalk (by decide) hn (types_facts.1 _ (by simp)) hc
  induction h with
  | field hi hd =>
    rintro t m k depth hc hm hk rfl
    have hx := shaped_of_reads hS hc.left hc.right hm hk
    obtain ⟨ks, z, hks, hz, rfl⟩ :=
      exists_described hx holds_messageFields rfl MessageDecl.fields_of hd
    exact exists_findsField_element hS hM hc holds_messageFields rfl
      (types_facts.2.2.2.1 fieldType (by simp)) rfl hi (hlist hc (by simp)) hm hk hks hz
      fun hw hin hz => ⟨_, _, .here hw hin hz⟩
  | extension hi hd =>
    rintro t m k depth hc hm hk rfl
    have hx := shaped_of_reads hS hc.left hc.right hm hk
    obtain ⟨ks, z, hks, hz, rfl⟩ :=
      exists_described hx holds_messageExtensions rfl MessageDecl.extensions_of hd
    exact exists_findsField_element hS hM hc holds_messageExtensions rfl
      (types_facts.2.2.2.1 fieldType (by simp)) rfl hi (hlist hc (by simp)) hm hk hks hz
      fun hw hin hz => ⟨_, _, .here hw hin hz⟩
  | nested hi hE h ih =>
    rintro t m k depth hc hm hk rfl
    have hx := shaped_of_reads hS hc.left hc.right hm hk
    obtain ⟨ks, z, hks, hz, he⟩ :=
      exists_described hx holds_messageNested rfl (MessageDecl.nested_of hx) hE
    exact exists_findsField_element hS hM hc holds_messageNested rfl
      (types_facts.2.2.2.1 messageType (by simp)) rfl hi (hlist hc (by simp)) hm hk hks hz
      fun hw hin hz => ih hw hin hz he

/-- The path of a field that a file declares leads to what declares it. -/
theorem exists_findsField_file (hS : S.Regular) (hM : S.Mirrors descriptorSchema)
    (hwalk : S.Walkable) {D : FileDecl} (h : D.HasField path name decl)
    (hc : Schema.Counterpart S descriptorSchema t fileType) (hm : Shaped S t m)
    (hk : Steps (readField descriptorSchema .typed depth fileType) [] (Value.recordsOf m) k)
    (hD : FileDecl.ofMessage k = D) : ∃ w inner, FindsField S depth decl path t m w inner := by
  have hlist : ∀ {n}, n ∈ [4, 7] → (t.fieldNumbered? n).isSome := fun hn =>
    isSome_of_declared fileTypeName _ hwalk (by decide) hn (by rw [message?_fileType]; rfl) hc
  have hx := shaped_of_reads hS hc.left hc.right hm hk
  subst hD
  cases h with
  | message hi hE h =>
    obtain ⟨ks, z, hks, hz, he⟩ :=
      exists_described hx holds_fileMessages rfl FileDecl.messages_of hE
    exact exists_findsField_element hS hM hc holds_fileMessages rfl
      (types_facts.2.2.2.1 messageType (by simp)) rfl hi (hlist (by simp)) hm hk hks hz
      fun hw hin hz => exists_findsField hS hM hwalk h hw hin hz he
  | extension hi hd =>
    obtain ⟨ks, z, hks, hz, rfl⟩ :=
      exists_described hx holds_fileExtensions rfl FileDecl.extensions_of hd
    exact exists_findsField_element hS hM hc holds_fileExtensions rfl
      (types_facts.2.2.2.1 fieldType (by simp)) rfl hi (hlist (by simp)) hm hk hks hz
      fun hw hin hz => ⟨_, _, .here hw hin hz⟩

end Message

namespace Descriptor

variable {d : Descriptor} {s : FieldSite}

/-- The path of a site leads to a message, and what this is written as is read as the declaration at
the site. -/
theorem exists_reached (h : d.Mirrored) (ha : d.decl.Addressable) (hwalk : d.schema.Walkable)
    (hs : s ∈ fieldSites d.decl) : ∃ w inner z,
      GoesTo d.schema s.path d.type d.message w inner ∧
        Message.decode descriptorSchema .typed fieldType inner.encode = .ok z ∧
          FieldDecl.ofMessage z = s.decl := by
  have hfield := (FileDecl.mem_fieldSites ha).mp hs
  obtain ⟨w, inner, hreach, hw, hin, depth, z, hdepth, hz, hdecl⟩ :=
    exists_findsField_file h.regular
    h.mirrors hwalk hfield h.counterpart h.shaped h.reads rfl
  have hfills := (fills_encode_iff h.regular hw.left hin.typed).mpr hz
  refine ⟨w, inner, z, hreach, decode_eq_ok_iff.mpr ⟨z, hfills.deeper_le hdepth, ?_⟩, hdecl⟩
  rw [finish_of_none (types_facts.2.2.2.1 fieldType (by simp))]

end Descriptor
end DescriptorKit
