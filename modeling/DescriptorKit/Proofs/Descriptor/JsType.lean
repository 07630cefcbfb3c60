import DescriptorKit.Proofs.Descriptor.Mirrored
import DescriptorKit.Proofs.Managed.Sites

/-!
How the representation of integers is set for one field of a mirrored descriptor: the change differs
in one place, and what the file declares is the same but for that field.
-/
namespace DescriptorKit
open Wire Payload Bundled Message Managed

namespace Message

variable {S : Schema} {t u v : MessageType} {g : Field} {m m' x y : Message} {n i depth : Nat}
  {p : List Nat} {R : Message → Message → Prop} {missing : Breach} {number : Int32}
  {rest : List Int32} {change : MessageType → Message → Message × Except Breach Unit}

/-- A change at the place `p` in a message, after which a typed reader finds what `R` relates to
what it found before. -/
structure Alters (S : Schema) (t u : MessageType) (p : List Nat) (R : Message → Message → Prop)
    (m m' : Message) : Prop where
  shaped : Shaped S t m'
  differs : ∀ q n, Differs (Descriptor.At (q ++ p)) (q ++ [n]) (m.only n) (m'.only n)
  reads : ∀ depth y, (∀ n f v, Holds descriptorSchema u n f v → Sized n m) →
    Steps (readField descriptorSchema .typed depth u) [] (Value.recordsOf m') y →
      ∃ x, Steps (readField descriptorSchema .typed depth u) [] (Value.recordsOf m) x ∧ R x y

theorem Alters.imp {R' : Message → Message → Prop} (h : Alters S t u p R m m')
    (hR : ∀ x y, R x y → R' x y) : Alters S t u p R' m m' where
  shaped := h.shaped
  differs := h.differs
  reads depth y hsize hy := by
    obtain ⟨x, hx, hxy⟩ := h.reads depth y hsize hy
    exact ⟨x, hx, hR x y hxy⟩

/-- One message in a list was exchanged for another one. -/
structure Exchanged (u : MessageType) (g : Field) (i : Nat) (R : Message → Message → Prop)
    (x y : Message) : Prop where
  shaped : Shaped descriptorSchema u x
  shaped_after : Shaped descriptorSchema u y
  others : ∀ j, j ≠ g.number → y.only j = x.only j
  exists_element : ∃ (ks : List Message) (z z' : Message), x.valuesOf g = ks.map Value.message ∧
    ks[i]? = some z ∧ y.valuesOf g = (ks.set i z').map Value.message ∧ R z z'

theorem ofNat_toNat {k : Int32} (h : 0 ≤ k.toInt) : Int32.ofNat k.toInt.toNat = k := by
  rw [← Int32.ofInt_eq_ofNat, Int.toNat_of_nonneg h, Int32.ofInt_toInt]

theorem shaped_of_reads (hS : S.Regular) (ht : t ∈ S.messages) (hu : u ∈ descriptorSchema.messages)
    (hm : Shaped S t m)
    (h : Steps (readField descriptorSchema .typed depth u) [] (Value.recordsOf m) x) :
    Shaped descriptorSchema u x :=
  ((fills_encode_iff hS ht hm.typed).mpr h).shaped descriptorSchema_regular
    (fun _ => descriptorSchema_fills) hu .nil

/-- A change of one message in a list is a change of the message with the list. -/
theorem updateAt_alters (index : Int32) (hM : S.Mirrors descriptorSchema) (hS : S.Regular)
    (hc : Schema.Counterpart S descriptorSchema t u) (hg : Holds descriptorSchema u n g v)
    (hr : g.repeated = true) (hreq : ∀ f ∈ v.fields, f.required = false) (hn : number.toInt = n)
    (hm : Shaped S t m)
    (hstep : ∀ w inner, Schema.Counterpart S descriptorSchema w v → Shaped S w inner →
      Shaped S w (updateAt S missing change rest w inner).1 ∧
        ((updateAt S missing change rest w inner).2 = .ok () →
          Alters S w v p R inner (updateAt S missing change rest w inner).1)) :
    Shaped S t (updateAt S missing change (number :: index :: rest) t m).1 ∧
      ((updateAt S missing change (number :: index :: rest) t m).2 = .ok () → 0 ≤ index.toInt ∧
        Alters S t u (n :: index.toInt.toNat :: p) (Exchanged u g index.toInt.toNat R) m
          (updateAt S missing change (number :: index :: rest) t m).1) := by
  have hgn : g.number = n := Schema.field?_number hg.field
  obtain ⟨hshaped, hset⟩ := updateAt_shaped missing change index rest hM hc hg hr hn hm
    fun w inner hw hin => (hstep w inner hw hin).1
  refine ⟨hshaped, fun hok => ?_⟩
  obtain ⟨hindex, helement⟩ := hset hok
  refine ⟨hindex, hshaped, fun q j => ?_, fun depth y hsize hy => ?_⟩
  · refine helement.differs (fun w inner hw hin hok => ?_) j
    have halters := (hstep w inner hw hin).2 hok
    refine ⟨halters.shaped, fun j => ?_⟩
    have := halters.differs (q ++ [n, index.toInt.toNat]) j
    rw [List.append_assoc] at this
    exact this
  · obtain ⟨x, hx, hothers, ks, z, z', hks, hz, hks', hR⟩ := helement.reads (R := R) hS hc hg hr
      (calm hc.right) (hsize n g v hg) (fun w inner d z' hw hin hok hlen hfills => by
        have halters := (hstep w inner hw hin).2 hok
        obtain ⟨z, hz, hR⟩ := halters.reads d z'
          (fun n _ _ _ => sized_of_length hS hw.left hin hlen n)
          ((fills_encode_iff hS hw.left halters.shaped.typed).mp hfills)
        refine ⟨z, (fills_encode_iff hS hw.left hin.typed).mpr hz, ?_⟩
        rwa [finish_of_none hreq, finish_of_none hreq]) hy
    exact ⟨x, hx, shaped_of_reads hS hc.left hc.right hm hx,
      shaped_of_reads hS hc.left hc.right hshaped hy, fun j hj => hothers j (hgn ▸ hj),
      ks, z, z', hks, hz, hks', hR⟩

end Message

namespace MessageDecl

variable {x y : Message} {i : Nat} {t : JsType} {ks : List Message}

/-- What a message describes. -/
def ofMessage (m : Message) : MessageDecl := ofFlat m (nestedOf m)

theorem ofValues_map (ks : List Message) :
    ofValues (ks.map Value.message) = ks.map ofMessage := by
  induction ks with
  | nil => rw [List.map_nil, ofValues, List.map_nil]
  | cons k ks ih =>
    rw [List.map_cons, ofValues, ih, ofValue?, List.map_cons]
    rfl

theorem nestedOf_only (m : Message) : nestedOf (m.only 3) = nestedOf m := by
  induction m with
  | nil => rfl
  | cons s m ih =>
    rw [Message.only_cons]
    cases s with
    | unknown n p => split <;> simp [nestedOf, ih]
    | known f v =>
      by_cases hf : f.number = 3
      · rw [if_pos (show (Slot.known f v).number = 3 from hf)]
        cases v <;> simp [nestedOf, ih]
      · rw [if_neg (show ¬ (Slot.known f v).number = 3 from hf), ih]
        cases v <;> simp [nestedOf, hf]

/-- The messages in a message that is read by the built-in schema. -/
theorem nestedOf_eq (h : Shaped descriptorSchema messageType x) :
    nestedOf x = ofValues (x.valuesOf messageNested) := by
  rw [← nestedOf_only, Message.valuesOf, ← get?_only (show messageNested.number = 3 from rfl) x]
  rcases only_of_shaped holds_messageNested.field h with ho | ⟨v, ho⟩
  · rw [ho]
    rfl
  · have hmem : Slot.known messageNested v ∈ x :=
      (mem_only_iff.mp (ho ▸ List.mem_singleton_self _)).1
    have hv := h.value hmem
    rw [ho]
    cases v with
    | many vs => rfl
    | scalar s =>
      rw [Value.Shaped] at hv
      cases hv.1
    | message k =>
      rw [Value.Shaped] at hv
      cases hv.1

section Parts

theorem fields_of (h : x.valuesOf messageFields = ks.map Value.message) :
    (ofMessage x).fields = ks.map FieldDecl.ofMessage :=
  congrArg (List.map FieldDecl.ofMessage) (messagesAt_eq rfl rfl rfl h)

theorem extensions_of (h : x.valuesOf messageExtensions = ks.map Value.message) :
    (ofMessage x).extensions = ks.map FieldDecl.ofMessage :=
  congrArg (List.map FieldDecl.ofMessage) (messagesAt_eq rfl rfl rfl h)

theorem nested_of (hx : Shaped descriptorSchema messageType x)
    (h : x.valuesOf messageNested = ks.map Value.message) :
    (ofMessage x).nested = ks.map ofMessage := by
  rw [← ofValues_map, ← h, ← nestedOf_eq hx]
  rfl

theorem fields_congr (h : y.only 2 = x.only 2) : (ofMessage y).fields = (ofMessage x).fields := by
  simp only [ofMessage, ofFlat, messagesAt, manyAt, at?_congr h]

theorem extensions_congr (h : y.only 6 = x.only 6) :
    (ofMessage y).extensions = (ofMessage x).extensions := by
  simp only [ofMessage, ofFlat, messagesAt, manyAt, at?_congr h]

theorem nested_congr (h : y.only 3 = x.only 3) : (ofMessage y).nested = (ofMessage x).nested := by
  simp only [ofMessage, ofFlat]
  rw [← nestedOf_only, h, nestedOf_only]

/-- A message describes the same but for its fields, its extensions and the messages in it. -/
theorem ofMessage_eq (h : ∀ j, j ≠ 2 → j ≠ 3 → j ≠ 6 → y.only j = x.only j) :
    ofMessage y = { ofMessage x with
      fields := (ofMessage y).fields, nested := (ofMessage y).nested
      extensions := (ofMessage y).extensions } := by
  have hat : ∀ j, j ≠ 2 → j ≠ 3 → j ≠ 6 → y.at? j = x.at? j := fun j h₂ h₃ h₆ =>
    at?_congr (h j h₂ h₃ h₆)
  simp only [ofMessage, ofFlat, textAt, textAt?, scalarAt?, messagesAt, manyAt, textsAt, messageAt?,
    hat 1 (by decide) (by decide) (by decide), hat 4 (by decide) (by decide) (by decide),
    hat 5 (by decide) (by decide) (by decide), hat 7 (by decide) (by decide) (by decide),
    hat 8 (by decide) (by decide) (by decide), hat 9 (by decide) (by decide) (by decide),
    hat 10 (by decide) (by decide) (by decide)]

end Parts

theorem retyped_of_field (h : Exchanged messageType messageFields i
      (fun z z' => (FieldDecl.ofMessage z).Retyped t (FieldDecl.ofMessage z')) x y) :
    (ofMessage x).Retyped t [2, Int32.ofNat i] (ofMessage y) := by
  obtain ⟨-, -, hothers, ks, z, z', hks, hz, hks', hR⟩ := h
  have hget : (ofMessage x).fields[i]? = some (FieldDecl.ofMessage z) := by
    rw [fields_of hks, List.getElem?_map, hz]
    rfl
  rw [ofMessage_eq fun j h₂ _ _ => hothers j h₂, nested_congr (hothers 3 (by decide)),
    extensions_congr (hothers 6 (by decide)), fields_of hks', List.map_set, ← fields_of hks]
  exact .field hget hR

theorem retyped_of_extension (h : Exchanged messageType messageExtensions i
      (fun z z' => (FieldDecl.ofMessage z).Retyped t (FieldDecl.ofMessage z')) x y) :
    (ofMessage x).Retyped t [6, Int32.ofNat i] (ofMessage y) := by
  obtain ⟨-, -, hothers, ks, z, z', hks, hz, hks', hR⟩ := h
  have hget : (ofMessage x).extensions[i]? = some (FieldDecl.ofMessage z) := by
    rw [extensions_of hks, List.getElem?_map, hz]
    rfl
  rw [ofMessage_eq fun j _ _ h₆ => hothers j h₆, nested_congr (hothers 3 (by decide)),
    fields_congr (hothers 2 (by decide)), extensions_of hks', List.map_set, ← extensions_of hks]
  exact .extension hget hR

theorem retyped_of_nested {rest : List Int32} (h : Exchanged messageType messageNested i
      (fun z z' => (ofMessage z).Retyped t rest (ofMessage z')) x y) :
    (ofMessage x).Retyped t (3 :: Int32.ofNat i :: rest) (ofMessage y) := by
  obtain ⟨hx, hy, hothers, ks, z, z', hks, hz, hks', hR⟩ := h
  have hget : (ofMessage x).nested[i]? = some (ofMessage z) := by
    rw [nested_of hx hks, List.getElem?_map, hz]
    rfl
  rw [ofMessage_eq fun j _ h₃ _ => hothers j h₃, fields_congr (hothers 2 (by decide)),
    extensions_congr (hothers 6 (by decide)), nested_of hy hks', List.map_set, ← nested_of hx hks]
  exact .nested hget hR

end MessageDecl

namespace FileDecl

variable {x y : Message} {i : Nat} {t : JsType} {ks : List Message}

theorem messages_of (h : x.valuesOf fileMessages = ks.map Value.message) :
    (ofMessage x).messages = ks.map MessageDecl.ofMessage := by
  rw [ofMessage, manyAt_eq (show fileMessages.number = 4 from rfl) rfl rfl, held,
    if_pos (show fileMessages.repeated = true from rfl), h, MessageDecl.ofValues_map]

theorem extensions_of (h : x.valuesOf fileExtensions = ks.map Value.message) :
    (ofMessage x).extensions = ks.map FieldDecl.ofMessage :=
  congrArg (List.map FieldDecl.ofMessage) (messagesAt_eq rfl rfl rfl h)

theorem messages_congr (h : y.only 4 = x.only 4) :
    (ofMessage y).messages = (ofMessage x).messages := by
  simp only [ofMessage, manyAt, at?_congr h]

theorem extensions_congr (h : y.only 7 = x.only 7) :
    (ofMessage y).extensions = (ofMessage x).extensions := by
  simp only [ofMessage, messagesAt, manyAt, at?_congr h]

/-- A file declares the same but for its messages and its extensions. -/
theorem ofMessage_eq (h : ∀ j, j ≠ 4 → j ≠ 7 → y.only j = x.only j) :
    ofMessage y = { ofMessage x with
      messages := (ofMessage y).messages, extensions := (ofMessage y).extensions } := by
  have hat : ∀ j, j ≠ 4 → j ≠ 7 → y.at? j = x.at? j := fun j h₄ h₇ => at?_congr (h j h₄ h₇)
  simp only [ofMessage, textAt, textAt?, scalarAt?, messagesAt, manyAt, textsAt, intsAt, messageAt?,
    hat 1 (by decide) (by decide), hat 2 (by decide) (by decide), hat 3 (by decide) (by decide),
    hat 5 (by decide) (by decide), hat 6 (by decide) (by decide), hat 8 (by decide) (by decide),
    hat 9 (by decide) (by decide), hat 10 (by decide) (by decide), hat 11 (by decide) (by decide),
    hat 12 (by decide) (by decide)]

theorem retyped_of_message {rest : List Int32} (h : Exchanged fileType fileMessages i
      (fun z z' => (MessageDecl.ofMessage z).Retyped t rest (MessageDecl.ofMessage z')) x y) :
    (ofMessage x).Retyped t (4 :: Int32.ofNat i :: rest) (ofMessage y) := by
  obtain ⟨-, -, hothers, ks, z, z', hks, hz, hks', hR⟩ := h
  have hget : (ofMessage x).messages[i]? = some (MessageDecl.ofMessage z) := by
    rw [messages_of hks, List.getElem?_map, hz]
    rfl
  rw [ofMessage_eq fun j h₄ _ => hothers j h₄, extensions_congr (hothers 7 (by decide)),
    messages_of hks', List.map_set, ← messages_of hks]
  exact .message hget hR

theorem retyped_of_extension (h : Exchanged fileType fileExtensions i
      (fun z z' => (FieldDecl.ofMessage z).Retyped t (FieldDecl.ofMessage z')) x y) :
    (ofMessage x).Retyped t [7, Int32.ofNat i] (ofMessage y) := by
  obtain ⟨-, -, hothers, ks, z, z', hks, hz, hks', hR⟩ := h
  have hget : (ofMessage x).extensions[i]? = some (FieldDecl.ofMessage z) := by
    rw [extensions_of hks, List.getElem?_map, hz]
    rfl
  rw [ofMessage_eq fun j _ h₇ => hothers j h₇, messages_congr (hothers 4 (by decide)),
    extensions_of hks', List.map_set, ← extensions_of hks]
  exact .extension hget hR

end FileDecl

/-- The place that a source path tells. -/
def place (path : List Int32) : List Nat := path.map fun k => k.toInt.toNat

namespace Message

variable {S : Schema} {w : MessageType} {m x y inner : Message} {t : JsType} {path : List Int32}

theorem retyped_of_option (hothers : ∀ j, j ≠ 8 → y.only j = x.only j)
    (ho : y.get? optionsOfField = some (.message inner))
    (hg : inner.get? jsTypeField = some (.scalar (.enum t.code))) :
    (FieldDecl.ofMessage x).Retyped t (FieldDecl.ofMessage y) where
  name := by simp only [FieldDecl.ofMessage, textAt, textAt?, scalarAt?,
    at?_congr (hothers 1 (by decide))]
  wide := by simp only [isWide, FieldDecl.ofMessage, intAt?, scalarAt?,
    at?_congr (hothers 5 (by decide))]
  jsType := by
    have hinner : (FieldDecl.ofMessage y).options = some inner := by
      simp only [FieldDecl.ofMessage, messageAt?]
      rw [at?_eq_get? (show optionsOfField.number = 8 from rfl) rfl, ho]
      rfl
    have hcode : inner.intAt? 6 = some t.code := by
      rw [intAt?, scalarAt?, at?_eq_get? (show jsTypeField.number = 6 from rfl) rfl, hg]
      rfl
    rw [jsTypeOf, hinner, Option.bind_some, hcode, Option.getD_some]
    cases t <;> rfl

/-- Sets how a field represents its integers. -/
abbrev retype (S : Schema) (t : JsType) (a : Breach) (b : SetFault → Breach) (u : MessageType)
    (k : Message) : Message × Except Breach Unit := k.setOption S u "jstype" (.enum t.code) a b

theorem retype_alters (missing : Breach) (t : JsType) (a : Breach) (b : SetFault → Breach)
    (hM : S.Mirrors descriptorSchema) (hS : S.Regular)
    (hc : Schema.Counterpart S descriptorSchema w fieldType) (hm : Shaped S w m) :
    Shaped S w (updateAt S missing (retype S t a b) [] w m).1 ∧
      ((updateAt S missing (retype S t a b) [] w m).2 = .ok () →
        Alters S w fieldType [8, 6]
          (fun x y => (FieldDecl.ofMessage x).Retyped t (FieldDecl.ofMessage y)) m
          (updateAt S missing (retype S t a b) [] w m).1) := by
  obtain ⟨hshaped, hset⟩ := setOption_shaped (s := .enum t.code) (a := a) (b := b) hM hS hc
    hasOption_jsType hm
  refine ⟨hshaped, fun hok => ⟨hshaped, fun q n => ?_, fun depth y hsize hy => ?_⟩⟩
  · exact (hset hok).differs rfl (fun _ _ => rfl) n
  · obtain ⟨x, hx, hothers, inner, ho, hg⟩ := (hset hok).reads hS hasOption_jsType
      (hsize 8 _ _ hasOption_jsType.options) hy
    exact ⟨x, hx, retyped_of_option hothers ho hg⟩

/-- Setting it for the field that a path leads to from a message. -/
theorem updateAt_leads (missing : Breach) (t : JsType) (a : Breach) (b : SetFault → Breach)
    (hM : S.Mirrors descriptorSchema) (hS : S.Regular) (h : Leads path) :
    ∀ {w m}, Schema.Counterpart S descriptorSchema w messageType → Shaped S w m →
      Shaped S w (updateAt S missing (retype S t a b) path w m).1 ∧
        ((updateAt S missing (retype S t a b) path w m).2 = .ok () →
          Alters S w messageType (place (path ++ [8, 6]))
            (fun x y => (MessageDecl.ofMessage x).Retyped t path (MessageDecl.ofMessage y)) m
            (updateAt S missing (retype S t a b) path w m).1) := by
  induction h with
  | field i =>
    intro w m hc hm
    obtain ⟨hshaped, halters⟩ := updateAt_alters (Int32.ofNat i) hM hS hc
      holds_messageFields rfl (types_facts.2.2.2.1 fieldType (by simp))
      (show (2 : Int32).toInt = _ from rfl) hm
      fun w inner hw hin => retype_alters missing t a b hM hS hw hin
    refine ⟨hshaped, fun hok => ?_⟩
    obtain ⟨hindex, halters⟩ := halters hok
    refine halters.imp fun x y hxy => ?_
    rw [← ofNat_toNat hindex]
    exact MessageDecl.retyped_of_field hxy
  | extension i =>
    intro w m hc hm
    obtain ⟨hshaped, halters⟩ := updateAt_alters (Int32.ofNat i) hM hS hc
      holds_messageExtensions rfl (types_facts.2.2.2.1 fieldType (by simp))
      (show (6 : Int32).toInt = _ from rfl) hm
      fun w inner hw hin => retype_alters missing t a b hM hS hw hin
    refine ⟨hshaped, fun hok => ?_⟩
    obtain ⟨hindex, halters⟩ := halters hok
    refine halters.imp fun x y hxy => ?_
    rw [← ofNat_toNat hindex]
    exact MessageDecl.retyped_of_extension hxy
  | nested i h ih =>
    intro w m hc hm
    obtain ⟨hshaped, halters⟩ := updateAt_alters (Int32.ofNat i) hM hS hc
      holds_messageNested rfl (types_facts.2.2.2.1 messageType (by simp))
      (show (3 : Int32).toInt = _ from rfl) hm
      fun w inner hw hin => ih hw hin
    refine ⟨hshaped, fun hok => ?_⟩
    obtain ⟨hindex, halters⟩ := halters hok
    refine halters.imp fun x y hxy => ?_
    rw [← ofNat_toNat hindex]
    exact MessageDecl.retyped_of_nested hxy

/-- Setting it for the field that a path leads to from a file. -/
theorem updateAt_fileLeads (missing : Breach) (t : JsType) (a : Breach) (b : SetFault → Breach)
    (hM : S.Mirrors descriptorSchema) (hS : S.Regular) (h : FileLeads path)
    (hc : Schema.Counterpart S descriptorSchema w fileType) (hm : Shaped S w m) :
    Shaped S w (updateAt S missing (retype S t a b) path w m).1 ∧
      ((updateAt S missing (retype S t a b) path w m).2 = .ok () →
        Alters S w fileType (place (path ++ [8, 6])) (fun x y =>
            (∀ j, j ∉ [4, 7] → y.only j = x.only j) ∧
              (FileDecl.ofMessage x).Retyped t path (FileDecl.ofMessage y)) m
          (updateAt S missing (retype S t a b) path w m).1) := by
  cases h with
  | message i h =>
    obtain ⟨hshaped, halters⟩ := updateAt_alters (Int32.ofNat i) hM hS hc
      holds_fileMessages rfl (types_facts.2.2.2.1 messageType (by simp))
      (show (4 : Int32).toInt = _ from rfl) hm
      fun w inner hw hin => updateAt_leads missing t a b hM hS h hw hin
    refine ⟨hshaped, fun hok => ?_⟩
    obtain ⟨hindex, halters⟩ := halters hok
    refine halters.imp fun x y hxy =>
      ⟨fun j hj => hxy.others j fun he => hj (by simp [he, fileMessages, messagesField]), ?_⟩
    rw [← ofNat_toNat hindex]
    exact FileDecl.retyped_of_message hxy
  | extension i =>
    obtain ⟨hshaped, halters⟩ := updateAt_alters (Int32.ofNat i) hM hS hc
      holds_fileExtensions rfl (types_facts.2.2.2.1 fieldType (by simp))
      (show (7 : Int32).toInt = _ from rfl) hm
      fun w inner hw hin => retype_alters missing t a b hM hS hw hin
    refine ⟨hshaped, fun hok => ?_⟩
    obtain ⟨hindex, halters⟩ := halters hok
    refine halters.imp fun x y hxy =>
      ⟨fun j hj => hxy.others j fun he => hj (by simp [he, fileExtensions, messagesField]), ?_⟩
    rw [← ofNat_toNat hindex]
    exact FileDecl.retyped_of_extension hxy

end Message

namespace Descriptor

variable {d : Descriptor} {path : List Int32} {t : JsType}

/-- The representation of integers that was set for one field. -/
structure SetsJsType (path : List Int32) (t : JsType) (d e : Descriptor) : Prop where
  touched : Touched (At (place (path ++ [8, 6]))) [4, 7] d e
  decl : d.decl.Retyped t path e.decl

theorem setJsType_touched (h : d.Mirrored) (hp : FileLeads path)
    (hok : (d.setJsType path t.code).2 = .ok ()) :
    SetsJsType path t d (d.setJsType path t.code).1 := by
  rw [setJsType] at hok ⊢
  have hspec := updateAt_fileLeads (.noFieldAt path) t .noFieldOptions .jsTypeRefused
    h.mirrors h.regular hp h.counterpart h.shaped
  obtain ⟨hchange, hmirrored, hschema, htype, hmessage⟩ := h.modify hok fun _ => hspec.1
  have halters := hspec.2 hchange
  generalize (d.modify fun m => m.updateAt d.schema (.noFieldAt path) (fun t' m =>
    m.setOption d.schema t' "jstype" (.enum t.code) .noFieldOptions .jsTypeRefused) path d.type).1
      = e at hmirrored hschema htype hmessage ⊢
  have hreads := hmirrored.reads
  rw [hmessage] at hreads
  obtain ⟨x, hx, hothers, hretyped⟩ := halters.reads _ _ (fun n f v hf => h.sized hf) hreads
  obtain rfl := hx.unique h.reads
  refine ⟨⟨hmirrored, hschema, htype, fun n => ?_, hothers⟩, hretyped⟩
  rw [hmessage]
  exact halters.differs [] n

end Descriptor

end DescriptorKit
