import DescriptorKit.Proofs.Message.Written

/-!
Typed messages that are written and read again. A typed reader fills in what is required, and reads
what was written of such a message as it was.
-/
namespace DescriptorKit
open Wire Payload Message

/-- Fields of the types have numbers that records can have, required ones can be told from unset
ones, and nothing is required of a message that stands by itself in another one. -/
structure Schema.Asks (S : Schema) (D : MessageType → Prop) : Prop where
  inRange : ∀ {t f n}, D t → S.field? t n = some f → InRange n
  presence : ∀ {t f}, D t → f ∈ t.fields → f.required = true → f.presence = true
  single : ∀ {t f n u}, D t → Holds S t n f u → f.repeated = false → ∀ m, finish S .typed u m = m

namespace Message

variable {S : Schema} {D : MessageType → Prop} {t u : MessageType} {f g : Field} {m k : Message}
  {v : Value} {depth n : Nat} {b : Bytes} {rs : List (Nat × Payload)}

theorem single_of_fits {k : Kind} {s : Scalar} (h : s.Fits k) : k.Single := by
  rcases k.single_or_nested with hk | ⟨type, rfl | rfl⟩
  · exact hk
  · cases h
  · cases h

section Fill

/-- Filling in what is required touches nothing else. -/
theorem only_fillRequired (hF : S.Fills) (ht : t ∈ S.messages) (hc : ∀ n, Calm S t n)
    (hm : m.Sorted) (hn : ∀ f ∈ t.fields, f.required = true → f.number ≠ n) :
    (fillRequired S t m).only n = m.only n := by
  suffices h : (fillRequired S t m).Sorted ∧ (fillRequired S t m).only n = m.only n from h.2
  refine fillRequired_induction (P := fun k => k.Sorted ∧ k.only n = m.only n) ⟨hm, rfl⟩ ?_
  rintro k f ⟨hk, heq⟩ hf hr -
  have ho := hc _ f (hF t ht f hf hr).1
  have hset := only_set_ne hk (fun s _ _ => Slot.rivals_eq_false ho s) (hn f hf hr)
  exact ⟨hk.set f _, (hset _).trans heq⟩

/-- Only fields of single values are filled in. -/
theorem only_finish (hF : S.Fills) (ht : t ∈ S.messages) (hc : ∀ n, Calm S t n) (hm : m.Sorted)
    (hn : ∀ f, S.field? t n = some f → ¬ f.kind.Single) :
    (finish S .typed t m).only n = m.only n := by
  refine only_fillRequired hF ht hc hm fun f hf hr he => ?_
  obtain ⟨hfield, -, s, -, hfit⟩ := hF t ht f hf hr
  exact hn f (he ▸ hfield) (single_of_fits hfit)

theorem isSome_set (hF : S.Fills) (ht : t ∈ S.messages) (hc : ∀ n, Calm S t n) (hm : m.Sorted)
    (hp : f.presence = true) (hf : f ∈ t.fields) (hr : f.required = true) (hg : g ∈ t.fields)
    (hrg : g.required = true) (h : (m.get? g).isSome) : ((m.set f v).get? g).isSome := by
  have hfield := (hF t ht f hf hr).1
  by_cases hn : f.number = g.number
  · rw [hn, (hF t ht g hg hrg).1] at hfield
    rw [Option.some.inj hfield, get?_set (Or.inl hp)]
    rfl
  · rwa [← get?_only rfl, only_set_ne hm
      (fun s _ _ => Slot.rivals_eq_false (hc _ f hfield) s) hn, get?_only rfl]

/-- Once what is required is filled in, all of it is there. -/
theorem isSome_fillRequired (hF : S.Fills) (ht : t ∈ S.messages) (hc : ∀ n, Calm S t n)
    (hp : ∀ f ∈ t.fields, f.required = true → f.presence = true) (hm : m.Sorted)
    (hg : g ∈ t.fields) (hr : g.required = true) : ((fillRequired S t m).get? g).isSome := by
  have hfold : ∀ fs : List Field, (∀ f ∈ fs, f ∈ t.fields) → ∀ m : Message, m.Sorted →
      g ∈ fs ∨ (m.get? g).isSome → ((fs.foldl (fun (m : Message) (f : Field) =>
        if f.required && (m.get? f).isNone then m.set f (S.default f)
        else m) m).get? g).isSome := by
    intro fs
    induction fs with
    | nil => exact fun _ _ _ h => h.resolve_left (by simp)
    | cons f fs ih =>
      intro hfs m hm h
      have hf := hfs f List.mem_cons_self
      have ih := ih fun g hg => hfs g (List.mem_cons_of_mem _ hg)
      rw [List.foldl_cons]
      split
      · rename_i hunset
        simp only [Bool.and_eq_true] at hunset
        refine ih _ (hm.set f _) ?_
        rcases h with h | h
        · rcases List.mem_cons.mp h with rfl | h
          · exact Or.inr (by rw [get?_set (Or.inl (hp g hg hr))]; rfl)
          · exact Or.inl h
        · exact Or.inr (isSome_set hF ht hc hm (hp f hf hunset.1) hf hunset.1 hg hr h)
      · rename_i hset
        refine ih _ hm ?_
        rcases h with h | h
        · rcases List.mem_cons.mp h with rfl | h
          · exact Or.inr (by simpa [hr, Option.isSome_iff_ne_none] using hset)
          · exact Or.inl h
        · exact Or.inr h
  exact hfold t.fields (fun _ h => h) m hm (Or.inl hg)

/-- Filling in what is required a second time changes nothing. -/
theorem fillRequired_fillRequired (hF : S.Fills) (ht : t ∈ S.messages) (hc : ∀ n, Calm S t n)
    (hp : ∀ f ∈ t.fields, f.required = true → f.presence = true) (hm : m.Sorted) :
    fillRequired S t (fillRequired S t m) = fillRequired S t m :=
  fillRequired_of_forall fun _ hf hr => isSome_fillRequired hF ht hc hp hm hf hr

end Fill

/-- What a typed reader made of a field of messages is read from what was written of it. -/
theorem steps_nested (hS : S.Regular) (hD : S.Simple D) (hA : S.Asks D) (ht : D t)
    (hf : Holds S t n f u) (hin : ∀ d, depth = d + 1 → ∀ b, Rereads S S .typed .typed d u u b)
    (hn : ∀ r ∈ rs, r.1 = n) (hm : Steps (readField S .typed depth t) [] rs m)
    (hlen : ∀ r ∈ Value.recordsOf m, (r.2.body r.1).length < 2 ^ 64) :
    Steps (readField S .typed depth t) [] (Value.recordsOf m) m := by
  have ho := hD.oneof ht hf.field
  have hsame : f.Same f := ⟨rfl, rfl, rfl, rfl, rfl, hf.map, ho⟩
  exact steps_messages hS (hD.mem ht) hf hf hsame (hD.presence ht hf.field) (hA.single ht hf)
    (hA.single ht hf) (fun d hd => .of_forall (hin d hd)) hn hm hm hlen

/-- What a typed reader made of the records of one number is read from what was written of it, once
all that is required was filled in. -/
theorem steps_finish_only (hS : S.Regular) (hF : S.Fills) (hD : S.Simple D) (hA : S.Asks D)
    (ht : D t)
    (hm : Shaped S t m)
    (hin : ∀ d u, depth = d + 1 → D u → ∀ b, Rereads S S .typed .typed d u u b)
    (hn : ∀ r ∈ rs, r.1 = n) (hmn : Steps (readField S .typed depth t) [] rs (m.only n))
    (hlen : ∀ r ∈ Value.recordsOf ((finish S .typed t m).only n), (r.2.body r.1).length < 2 ^ 64) :
    Steps (readField S .typed depth t) [] (Value.recordsOf ((finish S .typed t m).only n))
      ((finish S .typed t m).only n) := by
  have hmem := hD.mem ht
  have hcalm : ∀ n, Calm S t n := fun n f hf => hD.oneof ht hf
  have hk : Shaped S t (finish S .typed t m) := hm.finish (fun _ => hF) hmem
  have hnone : (finish S .typed t m).only n = [] → Steps (readField S .typed depth t) []
      (Value.recordsOf ((finish S .typed t m).only n)) ((finish S .typed t m).only n) := by
    intro h
    rw [h, Value.recordsOf]
    exact .nil _
  cases hf : S.field? t n with
  | none =>
    have honly := only_finish hF hmem hcalm hm.sorted fun f hf' => by rw [hf] at hf'; cases hf'
    exact hnone (honly.trans ((steps_unknown_iff hf hn).mp hmn).1)
  | some f =>
    rcases f.kind.single_or_nested with hsingle | ⟨type, hkind | hkind⟩
    · rcases only_of_shaped hf hk with hnil | ⟨v, hv⟩
      · exact hnone hnil
      · have hslot : Slot.known f v ∈ finish S .typed t m :=
          (mem_only_iff.mp (hv ▸ List.mem_singleton_self _)).1
        rw [hv, Value.recordsOf, Value.recordsOf, List.append_nil, Value.slotRecords] at hlen ⊢
        exact steps_single hS hmem hsingle (hD.presence ht hf) (hk.slot hslot)
          (Schema.field?_number hf ▸ hA.inRange ht hf) hlen
    · have honly : (finish S .typed t m).only n = m.only n := by
        refine only_finish hF hmem hcalm hm.sorted fun g hg hs => ?_
        obtain rfl := Option.some.inj (hf.symm.trans hg)
        exact hs.2 type hkind
      rw [honly] at hnone hlen ⊢
      cases hu : S.messageOf? f with
      | none =>
        refine hnone ?_
        rw [eq_nil_of_unresolved hf hkind hu hn hmn] at hmn
        generalize m.only n = k at hmn ⊢
        cases hmn
        rfl
      | some u =>
        exact steps_nested hS hD hA ht ⟨hf, ⟨type, hkind⟩, hu, hD.map ht hf⟩
          (fun d hd => hin d u hd (hD.inner ht hf hu)) hn hmn hlen
    · exact absurd hkind (hD.group ht hf type)

/-- A typed reader reads what was written of a message that it had read, as it was once all that is
required was filled in. -/
theorem fills_finish (hS : S.Regular) (hF : S.Fills) (hD : S.Simple D) (hA : S.Asks D) (ht : D t)
    (h : Fills S .typed depth t [] b m)
    (hlen : (Value.encodeSlots (finish S .typed t m)).length < 2 ^ 64) :
    Fills S .typed depth t [] (Value.encodeSlots (finish S .typed t m)) (finish S .typed t m) := by
  induction depth using Nat.strong_induction_on generalizing t b m with
  | _ depth ih =>
    have hmem := hD.mem ht
    have hcalm : ∀ n, Calm S t n := fun n f hf => hD.oneof ht hf
    obtain ⟨rs, -, hsteps⟩ := h.exists_records hS hmem
    have hm : Shaped S t m := h.shaped hS (fun _ => hF) hmem .nil
    have hk : Shaped S t (finish S .typed t m) := hm.finish (fun _ => hF) hmem
    -- filling in a second time what is required in a message one level down changes nothing
    have hin : ∀ d u, depth = d + 1 → D u → ∀ b, Rereads S S .typed .typed d u u b := by
      rintro d u rfl hu b inner inner' hinner hinner' hshort
      obtain rfl := Runs.unique record_advances hinner hinner'
      refine ⟨_, ih d (by omega) hu hinner hshort, ?_⟩
      exact fillRequired_fillRequired hF (hD.mem hu) (fun n f hf => hD.oneof hu hf)
        (fun f hf hr => hA.presence hu hf hr)
          (hinner.shaped hS (fun _ => hF) (hD.mem hu) .nil).sorted
    refine (fills_encode_iff hS hmem hk.typed).mpr (steps_of_only hcalm hk.made fun n => ?_)
    have hmn := Steps.only hsteps .nil (hcalm n)
    rw [only_nil] at hmn
    exact steps_finish_only hS hF hD hA ht hm hin
      (fun r hr => by simpa using (List.mem_filter.mp hr).2) hmn
      fun r hr => Nat.lt_of_le_of_lt (length_only_le hS hmem hk hr) hlen

end Message
end DescriptorKit
