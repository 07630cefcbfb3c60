import DescriptorKit.Pool.Options
import DescriptorKit.Proofs.Pool.Views
import DescriptorKit.Proofs.Schema.Agree

/-!
Options that are read where schemas and views agree. What is read without a finding in one place is
read in the other one, too, and comes to the same.
-/
namespace DescriptorKit.Pool

/-- The schemas find the same, and so do the views, packages apart. -/
structure OptionContext.Agrees (C D : OptionContext) : Prop where
  schema : C.schema.Agrees D.schema
  view : C.view.Agrees D.view

/-- Where the first reader finds nothing wrong, the second one does the same. -/
def Repeats {α : Type} (x y : OptionReader α) : Prop :=
  ∀ n, (x.run n).2.findings = [] → n.findings = [] ∧ y.run n = x.run n

namespace Repeats

variable {α β : Type} {x y : OptionReader α} {f g : α → OptionReader β}

theorem pure (a : α) : Repeats (Pure.pure a) (Pure.pure a) := fun _ h => ⟨h, rfl⟩

theorem bind (hx : Repeats x y) (hf : ∀ a, Repeats (f a) (g a)) : Repeats (x >>= f) (y >>= g) := by
  intro n h
  rw [StateT.run_bind] at h
  obtain ⟨hmid, hrest⟩ := hf _ _ h
  obtain ⟨hn, hfirst⟩ := hx n hmid
  refine ⟨hn, ?_⟩
  rw [StateT.run_bind, StateT.run_bind, hfirst]
  exact hrest

/-- A reader that finds something wrong is held to nothing. -/
theorem finding (f : Finding) (y : OptionReader PUnit) :
    Repeats (modify fun n : OptionNotes => { n with findings := f :: n.findings }) y :=
  fun _ h => by cases h

theorem move (p : List Int32 × List Int32) :
    Repeats (modify fun n : OptionNotes => { n with moves := p :: n.moves })
      (modify fun n : OptionNotes => { n with moves := p :: n.moves }) :=
  fun _ h => ⟨h, rfl⟩

theorem mapM {f g : α → OptionReader β} {l : List α} (h : ∀ a ∈ l, Repeats (f a) (g a)) :
    Repeats (l.mapM f) (l.mapM g) := by
  induction l with
  | nil => exact pure []
  | cons a l ih =>
    obtain ⟨ha, hl⟩ := List.forall_mem_cons.mp h
    rw [List.mapM_cons, List.mapM_cons]
    exact ha.bind fun b => (ih hl).bind fun bs => pure (b :: bs)

theorem each {γ : Type} {path : List Int32} {field : Int32} {items : List γ}
    {f g : List Int32 → γ → OptionReader γ} (h : ∀ path c, Repeats (f path c) (g path c)) :
    Repeats (OptionReader.each path field items f) (OptionReader.each path field items g) :=
  mapM fun _ _ => h _ _

end Repeats

variable {C D : OptionContext}

namespace OptionContext

theorem Agrees.extension (h : C.Agrees D) (scope name : String) :
    Matches (C.extension scope name) (D.extension scope name) := by
  have hm : Matches (C.view.resolve (· = .extension) "an extension" scope name)
    (D.view.resolve (· = .extension) "an extension" scope name) :=
      h.view.resolve (by decide) _ _ _
  unfold OptionContext.extension
  revert hm
  generalize C.view.resolve (· = .extension) "an extension" scope name = r,
    D.view.resolve (· = .extension) "an extension" scope name = q
  intro hm
  cases hm with
  | error f g => exact .error f g
  | ok s =>
    dsimp only
    rw [h.schema.named]
    split
    · exact .ok _
    · exact .error _ _

theorem Agrees.field (h : C.Agrees D) (scope : String) (t : MessageType) (option : String)
    (p : NamePart) : Matches (C.field scope t option p) (D.field scope t option p) := by
  unfold OptionContext.field
  split
  · have hm := h.extension scope p.name
    revert hm
    generalize C.extension scope p.name = r, D.extension scope p.name = q
    intro hm
    cases hm with
    | error f g => exact .error f g
    | ok e =>
      dsimp only
      split
      · exact .ok _
      · exact .error _ _
  · split
    · exact .ok _
    · exact .error _ _

theorem Agrees.typeText (h : C.Agrees D) (f : Field) : D.typeText f = C.typeText f := by
  rw [OptionContext.typeText, OptionContext.typeText, h.schema.messageOf?]

theorem Agrees.value? (h : C.Agrees D) (f : Field) (o : WrittenOption) :
    D.value? f o = C.value? f o := by
  unfold OptionContext.value?
  rw [h.typeText, h.schema.enum, h.schema.message, Text.Format.text_congr h.schema]

theorem Agrees.setPart (h : C.Agrees D) (scope : String) (o : WrittenOption) :
    ∀ (rest before : List NamePart) (t : MessageType) (m : Message),
      Matches (C.setPart scope o before rest t m) (D.setPart scope o before rest t m) := by
  intro rest
  induction rest with
  | nil => exact fun _ _ m => .ok _
  | cons p rest ih =>
    intro before t m
    have hm := h.field scope t (NamePart.text (before ++ [p])) p
    rw [OptionContext.setPart.eq_def, OptionContext.setPart.eq_def]
    dsimp only
    revert hm
    generalize C.field scope t (NamePart.text (before ++ [p])) p = r,
      D.field scope t (NamePart.text (before ++ [p])) p = q
    intro hm
    cases hm with
    | error f g => exact .error f g
    | ok f =>
      cases rest with
      | nil =>
        dsimp only
        rw [h.value?, Message.add_congr h.schema]
        split
        · exact .error _ _
        · exact .error _ _
        · exact .ok _
      | cons p' rest =>
        dsimp only
        rw [h.schema.messageOf?, h.typeText]
        split
        · rename_i inner _ _
          have hin := ih (before ++ [p]) inner (((m.get? f).bind Value.message?).getD [])
          revert hin
          generalize C.setPart scope o (before ++ [p]) (p' :: rest) inner _ = r,
            D.setPart scope o (before ++ [p]) (p' :: rest) inner _ = q
          intro hin
          cases hin with
          | error f g => exact .error f g
          | ok v => exact .ok _
        · exact .error _ _

end OptionContext

namespace OptionReader

variable {scope file : String} {path : List Int32} {t : MessageType}

theorem setAll_repeats (h : C.Agrees D) (l : List (WrittenOption × Nat)) :
    ∀ m, Repeats (setAll C scope file path t m l) (setAll D scope file path t m l) := by
  induction l with
  | nil => exact fun m => .pure m
  | cons p l ih =>
    obtain ⟨o, i⟩ := p
    intro m
    have hm := h.setPart scope o o.name [] t m
    rw [setAll, setAll]
    revert hm
    generalize C.setPart scope o [] o.name t m = r, D.setPart scope o [] o.name t m = q
    intro hm
    cases hm with
    | error f g => exact (Repeats.finding _ _).bind fun _ => ih m
    | ok p => exact (Repeats.move _).bind fun _ => ih p.1

theorem appended {S T B : Schema} (h : S.Agrees T) :
    Schema.Agrees ⟨S.messages ++ B.messages, S.enums ++ B.enums, S.extensions⟩
      ⟨T.messages ++ B.messages, T.enums ++ B.enums, T.extensions⟩ where
  message := by
    funext name
    have hs := congrFun h.message name
    simp only [Schema.message?] at hs
    simp only [Schema.message?, List.find?_append, hs]
  enum := by
    funext name
    have hs := congrFun h.enum name
    simp only [Schema.enum?] at hs
    simp only [Schema.enum?, List.find?_append, hs]
  extension := h.extension
  named := h.named

theorem read_repeats (h : C.Agrees D) (type : String) (given : Option Message) :
    Repeats (read C scope file type path given) (read D scope file type path given) := by
  cases given with
  | none => exact .pure none
  | some given =>
    rw [read, read, h.schema.message]
    dsimp only
    cases hown : (C.schema.message? ("google.protobuf." ++ type)).isSome with
    | true =>
      simp only [if_true]
      rw [h.schema.message, Message.decode_congr h.schema]
      split
      · exact .pure _
      · split
        · exact (Repeats.finding _ _).bind fun _ => .pure _
        · refine (setAll_repeats h _ _).bind fun m => ?_
          split
          · exact .pure _
          · exact .pure _
    | false =>
      simp only [Bool.false_eq_true, if_false]
      split
      · exact .pure _
      · split
        · exact (Repeats.finding _ _).bind fun _ => .pure _
        · have hboth : OptionContext.Agrees ⟨_, C.view⟩ ⟨_, D.view⟩ :=
            ⟨appended (B := Bundled.descriptorSchema) h.schema, h.view⟩
          refine (setAll_repeats hboth _ _).bind fun m => ?_
          split
          · exact .pure _
          · exact .pure _

theorem readField_repeats (h : C.Agrees D) (path : List Int32) (d : FieldDecl) :
    Repeats (readField C scope file path d) (readField D scope file path d) :=
  (read_repeats h _ _).bind fun _ => .pure _

theorem readEnum_repeats (h : C.Agrees D) (path : List Int32) (e : EnumDecl) :
    Repeats (readEnum C scope file path e) (readEnum D scope file path e) :=
  (read_repeats h _ _).bind fun _ =>
    (Repeats.each fun _ _ => (read_repeats h _ _).bind fun _ => .pure _).bind fun _ => .pure _

theorem readRange_repeats (h : C.Agrees D) (path : List Int32) (r : RangeDecl) :
    Repeats (readRange C scope file path r) (readRange D scope file path r) :=
  (read_repeats h _ _).bind fun _ => .pure _

mutual

theorem readMessage_repeats (h : C.Agrees D) (scope file : String) (path : List Int32) :
    ∀ m : MessageDecl, Repeats (readMessage C scope file path m) (readMessage D scope file path m)
  | ⟨name, fields, nested, enums, ranges, extensions, options, oneofs, reserved, names⟩ => by
    rw [readMessage, readMessage]
    refine (read_repeats h _ _).bind fun _ => ?_
    refine (Repeats.each (readRange_repeats h)).bind fun _ => ?_
    refine (Repeats.each fun _ _ => (read_repeats h _ _).bind fun _ => .pure _).bind fun _ => ?_
    refine (Repeats.each (readField_repeats h)).bind fun _ => ?_
    refine (readMessages_repeats h _ file path 3 0 nested).bind fun _ => ?_
    refine (Repeats.each (readEnum_repeats h)).bind fun _ => ?_
    exact (Repeats.each (readField_repeats h)).bind fun _ => .pure _

theorem readMessages_repeats (h : C.Agrees D) (scope file : String) (path : List Int32)
    (field : Int32) (index : Nat) : ∀ ms : List MessageDecl,
      Repeats (readMessages C scope file path field index ms)
        (readMessages D scope file path field index ms)
  | [] => by
    rw [readMessages, readMessages]
    exact .pure _
  | m :: rest => by
    rw [readMessages, readMessages]
    exact (readMessage_repeats h scope file _ m).bind fun _ =>
      (readMessages_repeats h scope file path field (index + 1) rest).bind fun _ => .pure _

end

theorem readService_repeats (h : C.Agrees D) (path : List Int32) (s : ServiceDecl) :
    Repeats (readService C scope file path s) (readService D scope file path s) :=
  (read_repeats h _ _).bind fun _ =>
    (Repeats.each fun _ _ => (read_repeats h _ _).bind fun _ => .pure _).bind fun _ => .pure _

/-- Options of a file that are read without a finding are read alike where all is found alike. -/
theorem readFile_repeats (h : C.Agrees D) (f : FileDecl) :
    Repeats (readFile C f) (readFile D f) := by
  refine (read_repeats h _ _).bind fun _ => ?_
  refine (readMessages_repeats h _ _ _ _ _ _).bind fun _ => ?_
  refine (Repeats.each (readEnum_repeats h)).bind fun _ => ?_
  refine (Repeats.each (readService_repeats h)).bind fun _ => ?_
  exact (Repeats.each (readField_repeats h)).bind fun _ => .pure _

end OptionReader

end DescriptorKit.Pool
