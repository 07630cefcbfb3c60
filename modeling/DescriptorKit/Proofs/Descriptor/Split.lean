import DescriptorKit.Image.Storage
import DescriptorKit.Proofs.Descriptor.Faithful
import DescriptorKit.Proofs.Message.Cut

/-!
Splitting an encoded descriptor. What is left and what is taken out are records of the descriptor as
its reader finds them, as long as no group mixes records of the number with others.
-/
namespace DescriptorKit
open Wire Payload Message

namespace Descriptor
open Bundled

variable {d : Descriptor} {e : Bytes} {k : Nat} {qs : List Records.Part}

/-- The descriptor without its records of a number. -/
def without (k : Nat) (d : Descriptor) : Descriptor := { d with message := d.message.without k }

/-- No undeclared group holds a record of the number, unless the group and all in it have that
number. -/
def Unmixed (k : Nat) (d : Descriptor) : Prop :=
  ∀ n p, Slot.unknown n p ∈ d.message → ∀ j ∈ Payload.numbers n p, j = k ↔ n = k

/-- The reader of descriptors. -/
abbrev reader : Message → Nat → WireType → Cursor → Except Wire.Failure (Message × Cursor) :=
  readField descriptorSchema .lossless maxDepth fileType

theorem groupless {f : Field} {n : Nat} (hf : descriptorSchema.field? fileType n = some f)
    (type : String) :
    f.kind ≠ .group type :=
  descriptorSchema_simple.group fileType_mem hf type

/-- Only undeclared groups can be cut by a split. -/
theorem whole_iff_unmixed (h : Steps reader [] (qs.map Records.Part.read) d.message) :
    (∀ q ∈ qs, q.Whole k) ↔ d.Unmixed k := by
  constructor
  · intro hwhole n p hp
    have hmem := ((Steps.sources h).2 n p hp).resolve_left (by simp)
    obtain ⟨q, hq, he⟩ := List.mem_map.mp hmem
    obtain ⟨rfl, rfl⟩ := Prod.mk.inj he
    exact hwhole q hq
  · intro hunmixed q hq
    have hmem : (q.number, q.payload) ∈ qs.map Records.Part.read := List.mem_map.mpr ⟨q, hq, rfl⟩
    cases hf : descriptorSchema.field? fileType q.number with
    | none =>
      have hentry := descriptorSchema_simple.entries fileType_mem
      exact hunmixed _ _ (Steps.unknown_mem h hentry hf (Or.inl hmem))
    | some f =>
      have hflat := Steps.wireType_ne h (fun f n hf => groupless hf) hmem hf
      intro j hj
      rw [numbers_of_ne hflat, List.mem_singleton] at hj
      rw [hj]

/-- The typed message does not tell what is undeclared. -/
theorem readTyped_without (hk : descriptorSchema.field? fileType k = none) (hd : decode e = .ok d) :
    readTyped (d.without k).encode = .ok d.typed := by
  have hsound := (decode_sound hd).1
  obtain ⟨m, typed, rfl, -, htyped⟩ := decode_inv hd
  have hsteps := (fills_encode_iff hsound.regular hsound.type_mem hsound.typed).mp
    (readTyped_eq_ok_iff.mp htyped)
  refine readTyped_eq_ok_iff.mpr ?_
  refine (fills_encode_iff hsound.regular hsound.type_mem (hsound.typed.without k)).mpr ?_
  rw [recordsOf_without]
  exact Steps.without hsteps hk

/-- Whatever can be read as a descriptor can be split. The split takes out the records of an
undeclared number that the reader finds, just where it cuts no group apart; then the reader finds
all other records in what is left, and makes the same of them. -/
theorem split_decode (hd : decode e = .ok d) (hlen : e.length < 2 ^ 64)
    (hk : descriptorSchema.field? fileType k = none) :
    ∃ cs rest extracted, Cut reader [] e cs d.message ∧
      Records.split k e = .ok (rest, extracted) ∧
        (extracted = Records.glued (cs.filter (·.1 = k)) ↔ d.Unmixed k) ∧
          (d.Unmixed k → rest = Records.glued (cs.filter (·.1 ≠ k)) ∧
            decode rest = .ok (d.without k)) := by
  have htyped := readTyped_without hk hd
  obtain ⟨m, typed, rfl, hm, -⟩ := decode_inv hd
  obtain ⟨cs, hcut⟩ := exists_cut (readField_local descriptorSchema .lossless maxDepth fileType) hm
  obtain ⟨qs, rfl, rfl, hsteps⟩ := hcut.exists_parts descriptorSchema_regular fileType_mem hlen
  have hwhole := whole_iff_unmixed (d := ⟨descriptorSchema, fileType, m, typed⟩) (k := k) hsteps
  have hpieces : Records.Pieces (Records.glued (qs.map Records.Part.cut))
      (qs.flatMap Records.Part.pieces) := by
    rw [← Records.Part.glued_pieces]
    refine Records.pieces_glued fun p hp => ?_
    obtain ⟨q, -, hp⟩ := List.mem_flatMap.mp hp
    exact q.is_piece p hp
  refine ⟨_, _, _, hcut, Records.split_eq_ok_iff.mpr ⟨_, hpieces, rfl, rfl⟩, ?_, fun hunmixed => ?_⟩
  · rw [Records.Part.extracted_eq_iff, hwhole]
  · have hrest := Records.Part.rest_eq (hwhole.mpr hunmixed)
    rw [hrest]
    have hcut := (hcut.without .nil (fun n => calm fileType_mem n) hk).runs
    exact ⟨rfl, bind_eq_ok_iff.mpr ⟨m.without k, decode_lossless_iff.mpr hcut,
      ofMessage_eq_ok_iff.mpr ⟨typed, htyped, rfl⟩⟩⟩

/-- A file with a record of the number for metadata, and a record of another number behind it. -/
def tagged : Bytes :=
  (FileDecl.toMessage { name := "a.proto" }).encode ++
    encodeAll [(Storage.metadataNumber, .delimited [8, 1]), (1000, .varint 7)]

theorem split_decode_tagged : ∃ d cs rest extracted, decode tagged = .ok d ∧
    Cut reader [] tagged cs d.message ∧
      Records.split Storage.metadataNumber tagged = .ok (rest, extracted) ∧
        (extracted = Records.glued (cs.filter (·.1 = Storage.metadataNumber)) ↔
          d.Unmixed Storage.metadataNumber) ∧
          (d.Unmixed Storage.metadataNumber →
            rest = Records.glued (cs.filter (·.1 ≠ Storage.metadataNumber)) ∧
              decode rest = .ok (d.without Storage.metadataNumber)) := by
  have hready : (decode tagged).toOption.isSome = true ∧ tagged.length < 2 ^ 64 ∧
      (descriptorSchema.field? fileType Storage.metadataNumber).isNone = true := by
    decide +kernel
  obtain ⟨d, hd⟩ := Option.isSome_iff_exists.mp hready.1
  obtain ⟨cs, rest, extracted, h⟩ :=
    split_decode (ok_of_toOption hd) hready.2.1 (Option.isNone_iff_eq_none.mp hready.2.2)
  exact ⟨d, cs, rest, extracted, ok_of_toOption hd, h⟩

/-- A file with an undeclared group that holds a record of the number for metadata. -/
def grouped : Bytes :=
  (FileDecl.toMessage { name := "a.proto" }).encode ++
    encodeAll [(1000, .group [(Storage.metadataNumber, .delimited [8, 1])])]

/-- What is written of a file without its records for metadata, and of what a split leaves of it. -/
def writtenTwice (e : Bytes) : Option (Bytes × Bytes) := do
  let d ← (decode e).toOption
  let (rest, _) ← (Records.split Storage.metadataNumber e).toOption
  let d' ← (decode rest).toOption
  some ((d.without Storage.metadataNumber).encode, d'.encode)

theorem writtenTwice_grouped :
    (writtenTwice grouped).map (fun b => decide (b.1 = b.2)) = some false := by
  decide +kernel

/-- A split takes a record out of a group, which the reader keeps where it is. -/
theorem not_split_decode_grouped : ¬ ∀ e d, decode e = .ok d → ∃ cs rest extracted,
    Cut reader [] e cs d.message ∧ Records.split Storage.metadataNumber e = .ok (rest, extracted) ∧
      extracted = Records.glued (cs.filter (·.1 = Storage.metadataNumber)) ∧
        decode rest = .ok (d.without Storage.metadataNumber) := by
  intro hall
  obtain ⟨⟨b, b'⟩, hb, hne⟩ := Option.map_eq_some_iff.mp writtenTwice_grouped
  rw [writtenTwice] at hb
  obtain ⟨d, hd, hb⟩ := Option.bind_eq_some_iff.mp hb
  obtain ⟨⟨rest, extracted⟩, hsplit, hb⟩ := Option.bind_eq_some_iff.mp hb
  obtain ⟨d', hd', hb⟩ := Option.bind_eq_some_iff.mp hb
  obtain ⟨rfl, rfl⟩ := Prod.mk.inj (Option.some.inj hb)
  obtain ⟨cs, rest', extracted', -, hsplit', -, hrest⟩ := hall grouped d (ok_of_toOption hd)
  obtain ⟨rfl, rfl⟩ := Prod.mk.inj (Except.ok.inj ((ok_of_toOption hsplit).symm.trans hsplit'))
  obtain rfl := Except.ok.inj ((ok_of_toOption hd').symm.trans hrest)
  simp at hne

end Descriptor
end DescriptorKit
