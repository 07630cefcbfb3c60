import DescriptorKit.Proofs.Bundled.Types
import DescriptorKit.Proofs.Descriptor.Modify
import DescriptorKit.Proofs.Message.Differs

/-!
Descriptors held by a schema that agrees with the built-in one, and what becomes of them when a file
option is set.
-/
namespace DescriptorKit.Descriptor
open Wire Payload Bundled Message Managed

variable {d e e' : Descriptor} {m : Message} {o : FileOption} {n : Nat} {s : Scalar}
  {may might : List Nat → Message → Message → Prop} {ns : List Nat}

/-- A descriptor whose message is one of a schema that agrees with the built-in schema, and whose
typed message is what a typed reader finds in it. -/
structure Mirrored (d : Descriptor) : Prop where
  regular : d.schema.Regular
  mirrors : d.schema.Mirrors descriptorSchema
  counterpart : Schema.Counterpart d.schema descriptorSchema d.type fileType
  shaped : Shaped d.schema d.type d.message
  synced : readTyped d.message.encode = .ok d.typed

/-- A descriptor that is held by the built-in schema. -/
theorem decode_mirrored {bytes : Bytes} (h : decode bytes = .ok d) : d.Mirrored := by
  obtain ⟨m, hm, h⟩ := bind_eq_ok_iff.mp h
  obtain ⟨typed, htyped, rfl⟩ := ofMessage_eq_ok_iff.mp h
  exact ⟨descriptorSchema_regular, mirrors_self,
    ⟨fileTypeName, message?_fileType, message?_fileType⟩,
    decode_shaped descriptorSchema_regular (fun h => by cases h) fileType_mem hm, htyped⟩

namespace Mirrored

/-- The typed message is read from the records of the message. -/
theorem reads (h : d.Mirrored) :
    Steps (readField descriptorSchema .typed maxDepth fileType) [] (Value.recordsOf d.message)
      d.typed :=
  (fills_encode_iff h.regular h.counterpart.left h.shaped.typed).mp
    (readTyped_eq_ok_iff.mp h.synced)

theorem typed_shaped (h : d.Mirrored) : Shaped descriptorSchema fileType d.typed :=
  Descriptor.typed_shaped h.synced

theorem sized {f : Field} {u : MessageType} (h : d.Mirrored)
    (hf : Holds descriptorSchema fileType n f u) : Sized n d.message :=
  fun _ hb => length_of_steps hf h.reads hb

/-- A change that succeeds and leaves a message of the type goes on with what a typed reader finds
in that. -/
theorem modify {α : Type} {change : Message → Message × Except Breach α} {a : α} (h : d.Mirrored)
    (hok : (d.modify change).2 = .ok a)
    (hs : (change d.message).2 = .ok a → Shaped d.schema d.type (change d.message).1) :
    (change d.message).2 = .ok a ∧ (d.modify change).1.Mirrored ∧
      (d.modify change).1.schema = d.schema ∧ (d.modify change).1.type = d.type ∧
        (d.modify change).1.message = (change d.message).1 := by
  rcases d.modify_cases change with ⟨f, -, hm⟩ | ⟨typed, htyped, hm⟩
  · rw [hm] at hok
    cases hok
  · rw [hm] at hok ⊢
    have hchange : (change d.message).2 = .ok a := by
      cases hr : (change d.message).2 with
      | error b =>
        rw [hr] at hok
        cases hok
      | ok b =>
        rw [hr] at hok
        rw [Except.ok.inj (show Except.ok b = _ from hok)]
    exact ⟨hchange, ⟨h.regular, h.mirrors, h.counterpart, hs hchange, htyped⟩, rfl, rfl, rfl⟩

end Mirrored

/-- A descriptor that came from a mirrored one: the messages differ as `may` allows, and the typed
messages under the numbers `ns` only. -/
structure Touched (may : List Nat → Message → Message → Prop) (ns : List Nat) (d e : Descriptor) :
    Prop where
  mirrored : e.Mirrored
  schema : e.schema = d.schema
  type : e.type = d.type
  message : ∀ n, Differs may [n] (d.message.only n) (e.message.only n)
  typed : ∀ n, n ∉ ns → e.typed.only n = d.typed.only n

namespace Touched

theorem refl (h : d.Mirrored) : Touched may ns d d :=
  ⟨h, rfl, rfl, fun _ => .same _ _, fun _ _ => rfl⟩

theorem trans (h : Touched may ns d e) (h' : Touched may ns e e') : Touched may ns d e' where
  mirrored := h'.mirrored
  schema := h'.schema.trans h.schema
  type := h'.type.trans h.type
  message n := (h.message n).trans (h'.message n)
  typed n hn := (h'.typed n hn).trans (h.typed n hn)

theorem mono {ms : List Nat} (h : Touched may ns d e)
    (hm : ∀ p k k', may p k k' → might p k k') (hn : ns ⊆ ms) : Touched might ms d e where
  mirrored := h.mirrored
  schema := h.schema
  type := h.type
  message n := (h.message n).mono fun p k k' _ => hm p k k'
  typed n hm := h.typed n fun hmem => hm (hn hmem)

end Touched

/-- Anything may differ at a place. -/
def At (p q : List Nat) (_ _ : Message) : Prop := q = p

section FileOptions

/-- A file option that was set. -/
structure SetsFileOption (o : FileOption) (n : Nat) (s : Scalar) (d e : Descriptor) : Prop where
  touched : Touched (At [8, n]) [8] d e
  option : e.fileOption? o.name = some (.scalar s)
  others : ∀ o', o' ≠ o → e.fileOption? o'.name = d.fileOption? o'.name

theorem fileOption?_eq {f : Field} {w : MessageType} {options : Message} (name : String)
    (hf : d.type.fieldNamed? "options" = some f) (hw : d.schema.messageOf? f = some w)
    (hg : d.message.get d.schema f = .message options) :
    d.fileOption? name = (w.fieldNamed? name).map fun g => Message.get d.schema g options := by
  rw [fileOption?, hf]
  dsimp only
  rw [hg, hw]

theorem get_eq_of_only {S : Schema} {f : Field} {v : Value} (hn : f.number = n)
    (h : m.only n = [.known f v]) : m.get S f = v := by
  rw [Message.get, ← get?_only hn m, h, Message.get?, if_pos (Slot.holds_known f v)]
  rfl

/-- Fields of other names are other fields. -/
theorem number_ne_of_named {S : Schema} {t : MessageType} {x y : Field} {name other : String}
    (hS : S.Regular) (ht : t ∈ S.messages) (hx : t.fieldNamed? name = some x)
    (hy : t.fieldNamed? other = some y) (hne : other ≠ name) : x.number ≠ y.number := by
  intro he
  have hfx := hS.field?_of_named ht hx
  rw [he, hS.field?_of_named ht hy] at hfx
  obtain rfl := Option.some.inj hfx
  have hname : y.name = name := by simpa using List.find?_some hx
  have hother : y.name = other := by simpa using List.find?_some hy
  exact hne (hother.symm.trans hname)

theorem setFileOption_touched (h : d.Mirrored) (ho : o.fieldNumber? = some n)
    (hok : (d.setFileOption o.name s).2 = .ok ()) :
    SetsFileOption o n s d (d.setFileOption o.name s).1 := by
  obtain ⟨g, hname, rfl, hg⟩ := hasOption_file ho
  rw [setFileOption, ← hname] at hok ⊢
  have hspec := setOption_shaped (s := s) (a := .noFileOptions) (b := .fileOptionRefused g.name)
    h.mirrors h.regular h.counterpart hg h.shaped
  obtain ⟨hchange, hmirrored, hschema, htype, hmessage⟩ := h.modify hok fun _ => hspec.1
  have hsets := hspec.2 hchange
  generalize (d.modify fun m => m.setOption d.schema d.type g.name s .noFileOptions
    (.fileOptionRefused g.name)).1 = e at hmirrored hschema htype hmessage ⊢
  rw [← hmessage] at hsets
  obtain ⟨k, hk, hsame, -⟩ := hsets.reads h.regular hg (h.sized holds_optionsOfFile) hmirrored.reads
  obtain rfl := hk.unique h.reads
  obtain ⟨f, w, x, options, hset⟩ := hsets.exists_options
  have hget' : e.message.get e.schema f = .message (Message.set x (.scalar s) options) :=
    get_eq_of_only (Schema.field?_number hset.holds.field) hset.after
  have hbefore := fun name => fileOption?_eq name hset.named hset.holds.type hset.get
  have hafter := fun name =>
    fileOption?_eq name (htype ▸ hset.named) (hschema ▸ hset.holds.type) hget'
  refine ⟨⟨hmirrored, hschema, htype, hsets.differs hg.presence (p := []) fun _ _ => rfl, ?_⟩,
    ?_, ?_⟩
  · intro j hj
    exact hsame j fun he => hj (he ▸ List.mem_singleton_self _)
  · rw [hafter, ← hname, hset.option_named, Option.map_some, Message.get,
      get?_set (Or.inl (hset.option_same.presence.trans hg.presence))]
    rfl
  · intro o' hne
    rw [hafter, hbefore, hschema]
    cases hy : w.fieldNamed? o'.name with
    | none => rfl
    | some y =>
      have hdistinct : o'.name ≠ g.name := by
        intro he
        rw [hname] at he
        have hof := FileOption.ofName?_name o'
        rw [he, FileOption.ofName?_name] at hof
        exact hne (Option.some.inj hof).symm
      have hnumber := number_ne_of_named h.regular hset.counterpart.left hset.option_named hy
        hdistinct
      rw [Option.map_some, Option.map_some, Message.get, Message.get, ← get?_only rfl options,
        ← get?_only rfl (Message.set x _ options),
        only_set_other hset.shaped.sorted hset.option_same.oneof hnumber]

end FileOptions

end DescriptorKit.Descriptor
