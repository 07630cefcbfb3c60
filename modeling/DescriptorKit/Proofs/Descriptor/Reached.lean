import DescriptorKit.Proofs.Descriptor.Faithful
import DescriptorKit.Proofs.Descriptor.Modify

/-!
The typed message of a descriptor, whatever was done to the descriptor before. It is what a typed
reader finds in what is written of the message, unless a change left a message that cannot be read:
then it stays what it was before the change.
-/
namespace DescriptorKit.Descriptor
open Wire Payload Bundled Message

variable {d e : Descriptor} {S : Schema} {t : MessageType} {bytes : Bytes} {typed : Message}
  {ds es : List Descriptor} {α : Type}

section Steps

theorem ofTyped_synced (hm : readTyped bytes = .ok typed) (h : ofTyped typed = .ok d)
    (htyped : typed.encode.length < 2 ^ 64) (hlen : d.encode.length < 2 ^ 64) :
    readTyped d.encode = .ok d.typed := by
  obtain ⟨m, hm', hread⟩ := exists_decode_of_readTyped (readTyped_encode hm htyped)
  obtain ⟨m', hdecode, he⟩ := bind_eq_ok_iff.mp h
  obtain rfl := Except.ok.inj (hm'.symm.trans hdecode)
  obtain rfl := Except.ok.inj he
  exact hread hlen

/-- The schema of a pool agrees with the built-in one about descriptors, if it has them. -/
def Agrees (ds : List Descriptor) : Prop :=
  ∀ P, Reparse.pool ds = .ok P → (P.schema.message? fileTypeName).isSome →
    P.schema.Mirrors descriptorSchema

theorem apply_synced (hds : ∀ d ∈ ds, readTyped d.encode = .ok d.typed) (hagrees : Agrees ds)
    (h : Reparse.apply ds = .ok es) (he : e ∈ es) (hlen : e.encode.length < 2 ^ 64) :
    readTyped e.encode = .ok e.typed := by
  obtain ⟨P, hP, hall⟩ := Reparse.apply_eq_ok_iff.mp h
  obtain ⟨d, hd, hrereads⟩ := exists_of_forall₂ hall he
  cases ht : P.schema.message? fileTypeName with
  | none => exact hrereads.same ht ▸ hds d hd
  | some t =>
    exact reread_synced (hds d hd) (Reparse.pool_regular hP) (hagrees P hP (by rw [ht]; rfl)) ht
      (hrereads.read ht) hlen

/-- The typed message is the one found in a changed message just where that can be read. -/
theorem modify_synced_iff (change : Message → Message × Except Breach α) :
    readTyped (d.modify change).1.encode = .ok (d.modify change).1.typed ↔
      ∀ f, (d.modify change).2 ≠ .error (.decode f) := by
  rcases d.modify_cases change with ⟨f, hf, hm⟩ | ⟨typed, htyped, hm⟩
  · have hnot : readTyped (change d.message).1.encode ≠ .ok d.typed := by
      rw [hf]
      exact fun h => by cases h
    rw [hm]
    exact ⟨fun h => absurd h hnot, fun h => absurd rfl (h f)⟩
  · rw [hm]
    refine ⟨fun _ f h => ?_, fun _ => htyped⟩
    cases hr : (change d.message).2 with
    | ok a =>
      rw [hr] at h
      cases h
    | error b =>
      rw [hr] at h
      cases h

theorem removeLocations_synced (h : readTyped d.encode = .ok d.typed) (paths : List (List Int32)) :
    (∀ f, (d.removeLocations paths).2 ≠ .error (.decode f)) →
      readTyped (d.removeLocations paths).1.encode = .ok (d.removeLocations paths).1.typed := by
  unfold removeLocations
  split
  · exact fun _ => h
  · split
    · exact fun _ => h
    · exact (modify_synced_iff _).mpr

/-- What may be changed of a descriptor. -/
inductive Change where
  | fileOption (name : String) (value : Scalar)
  | jsType (path : List Int32) (code : Int32)
  | locations (paths : List (List Int32))

/-- The descriptor after a change, and what became of the change. -/
def Change.apply (d : Descriptor) : Change → Descriptor × Except Error Unit
  | fileOption name value => d.setFileOption name value
  | jsType path code => d.setJsType path code
  | locations paths => ((d.removeLocations paths).1, (d.removeLocations paths).2.map fun _ => ())

theorem Change.apply_synced (h : readTyped d.encode = .ok d.typed) (c : Change)
    (hr : ∀ f, (c.apply d).2 ≠ .error (.decode f)) :
    readTyped (c.apply d).1.encode = .ok (c.apply d).1.typed := by
  cases c with
  | fileOption name value => exact (modify_synced_iff _).mpr hr
  | jsType path code => exact (modify_synced_iff _).mpr hr
  | locations paths =>
    refine removeLocations_synced h paths fun f he => hr f ?_
    rw [apply, he]
    rfl

end Steps

/-- Descriptors that some sequence of operations ends with. Descriptors are read again next to
others by the schema of their pool, which agrees with the built-in one, and changes may fail as
admitted. What is written has a length. -/
inductive Reached (admitted : Except Error Unit → Prop) : Descriptor → Prop where
  | read {bytes : Bytes} {d : Descriptor} (h : decode bytes = .ok d) : Reached admitted d
  | typed {bytes : Bytes} {typed : Message} {d : Descriptor} (hm : readTyped bytes = .ok typed)
      (h : ofTyped typed = .ok d) (htyped : typed.encode.length < 2 ^ 64)
      (hlen : d.encode.length < 2 ^ 64) : Reached admitted d
  | reread {ds es : List Descriptor} {e : Descriptor} (hds : ∀ d ∈ ds, Reached admitted d)
      (hagrees : Agrees ds) (h : Reparse.apply ds = .ok es) (he : e ∈ es)
      (hlen : e.encode.length < 2 ^ 64) : Reached admitted e
  | change {d : Descriptor} (h : Reached admitted d) (c : Change) (hr : admitted (c.apply d).2) :
      Reached admitted (c.apply d).1

/-- A change that succeeds, or that fails for another reason than that what it leaves cannot be
read. -/
def Legible (r : Except Error Unit) : Prop := ∀ f, r ≠ .error (.decode f)

/-- The typed message never goes stale: after any sequence of operations, each of which leaves what
can be read, it is what a typed reader finds in the bytes that are written of the descriptor. -/
theorem reached_synced (h : d.Reached Legible) : readTyped d.encode = .ok d.typed := by
  induction h with
  | read h => exact decode_synced h
  | typed hm h htyped hlen => exact ofTyped_synced hm h htyped hlen
  | reread _ hagrees h he hlen ih => exact Descriptor.apply_synced ih hagrees h he hlen
  | change _ c hr ih => exact c.apply_synced ih hr

section Runs

/-- An older file of what descriptors are. -/
def older : Bytes :=
  FileDecl.toMessage
    { name := "google/protobuf/descriptor.proto", package := some "google.protobuf"
      messages := [
        { name := "FileDescriptorProto"
          fields := [one "name" 1 text, one "options" 8 (Bundled.message "FileOptions")] },
        { name := "FileOptions", fields := [one "go_package" 11 text] }] } |>.encode

/-- Whether a change leaves what can be read. -/
def isLegible : Except Error Unit → Bool
  | .error (.decode _) => false
  | _ => true

theorem legible_of_isLegible {r : Except Error Unit} (h : isLegible r = true) : Legible r := by
  rintro f rfl
  cases h

def goPackage : Change := .fileOption "go_package" (.string "example.com/a")

/-- A descriptor that is read again by its own schema, if that is a part of the built-in one, and
whether an option can be set then. -/
def setAgain (bytes : Bytes) : Option (Bool × Bool) := do
  let d ← (decode bytes).toOption
  let P ← (Reparse.pool [d]).toOption
  let es ← (Reparse.apply [d]).toOption
  some (isPart P.schema && (P.schema.message? fileTypeName).isSome,
    es.all fun e => e.encode.length < 2 ^ 64 && isLegible (goPackage.apply e).2)

theorem setAgain_older : setAgain older = some (true, true) := by decide +kernel

theorem reached_synced_older : ∃ d es, decode older = .ok d ∧ Reparse.apply [d] = .ok es ∧
    ∀ e ∈ es, readTyped (goPackage.apply e).1.encode = .ok (goPackage.apply e).1.typed := by
  have h := setAgain_older
  rw [setAgain] at h
  obtain ⟨d, hd, h⟩ := Option.bind_eq_some_iff.mp h
  obtain ⟨P, hP, h⟩ := Option.bind_eq_some_iff.mp h
  obtain ⟨es, hes, h⟩ := Option.bind_eq_some_iff.mp h
  obtain ⟨hpart, hall⟩ := Prod.mk.inj (Option.some.inj h)
  have hd := ok_of_toOption hd
  have hes := ok_of_toOption hes
  have hagrees : Agrees [d] := by
    intro Q hQ _
    obtain rfl := Except.ok.inj ((ok_of_toOption hP).symm.trans hQ)
    exact mirrors_of_isPart (Bool.and_eq_true_iff.mp hpart).1
  refine ⟨d, es, hd, hes, fun e he => ?_⟩
  obtain ⟨hlen, hlegible⟩ := Bool.and_eq_true_iff.mp (List.all_eq_true.mp hall e he)
  have hread : e.Reached Legible :=
    .reread (fun c hc => List.mem_singleton.mp hc ▸ .read hd) hagrees hes
    he (by simpa using hlen)
  exact reached_synced (.change hread goPackage (legible_of_isLegible hlegible))

/-- A message type with one field, inside as many others. -/
def inside : (depth : Nat) → Payload
  | 0 => .delimited (encodeAll [(2, .delimited [])])
  | depth + 1 => .delimited (encodeAll [(3, inside depth)])

/-- The file with such a type. -/
def deep (depth : Nat) : Bytes := encodeAll [(4, inside depth)]

/-- The source path of the field in it. -/
def deepPath (depth : Nat) : List Int32 := [4, 0] ++ (List.replicate depth [3, 0]).flatten ++ [2, 0]

/-- Whether the change of how the field is represented leaves what can be read. -/
def staysLegible (depth : Nat) : Option Bool := do
  let d ← (decode (deep depth)).toOption
  some (isLegible ((Change.jsType (deepPath depth) 1).apply d).2)

theorem staysLegible_deep : staysLegible 98 = some false := by decide +kernel

/-- A field that lies so deep that its options cannot be read is changed all the same, and the typed
message stays behind. -/
theorem not_synced_deep : ∃ d : Descriptor, d.Reached (fun _ => True) ∧
    readTyped d.encode ≠ .ok d.typed := by
  have h := staysLegible_deep
  rw [staysLegible] at h
  obtain ⟨d, hd, h⟩ := Option.bind_eq_some_iff.mp h
  have h := Option.some.inj h
  refine ⟨_, .change (.read (ok_of_toOption hd)) (.jsType (deepPath 98) 1) trivial,
    fun hsynced => ?_⟩
  have hlegible := (modify_synced_iff _).mp hsynced
  generalize hr : ((Change.jsType (deepPath 98) 1).apply d).2 = r at h
  rw [Change.apply, setJsType] at hr
  rw [hr] at hlegible
  cases r with
  | ok u => cases h
  | error e =>
    cases e with
    | decode f => exact hlegible f rfl
    | _ => cases h

end Runs

end DescriptorKit.Descriptor
