import DescriptorKit.Proofs.Bundled.Types

/-!
Messages that are dropped from a list. The records of those that stay are read as before, and since
there are no more of them than before, the message around them can still be written with its length.
-/
namespace DescriptorKit.Message
open Wire Payload Bundled

variable {S B : Schema} {t u v w : MessageType} {f g : Field} {m m' k : Message} {vs : List Value}
  {n depth : Nat} {rs ss : List (Nat × Payload)}

section Size

theorem length_encodeAll_le (h : rs.Sublist ss) :
    (encodeAll rs).length ≤ (encodeAll ss).length := by
  induction h with
  | slnil => exact le_refl _
  | cons r _ ih =>
    rw [encodeAll, List.length_append]
    omega
  | cons_cons r _ ih =>
    rw [encodeAll, encodeAll, List.length_append, List.length_append]
    omega

theorem recordsOf_filter_sublist (p : Slot → Bool) (m : Message) :
    (Value.recordsOf (m.filter p)).Sublist (Value.recordsOf m) := by
  induction m with
  | nil => exact List.Sublist.refl _
  | cons s m ih =>
    rw [List.filter_cons, Value.recordsOf]
    split
    · rw [Value.recordsOf]
      exact (List.Sublist.refl _).append ih
    · exact ih.trans (List.sublist_append_right _ _)

theorem recordsOf_replace_sublist {x : Value}
    (h : ∀ s ∈ m, s.holds f → (Value.records f x).Sublist (Value.slotRecords s)) :
    (Value.recordsOf (m.replace f x)).Sublist (Value.recordsOf m) := by
  induction m with
  | nil => exact List.Sublist.refl _
  | cons s m ih =>
    have ih := ih fun s hs => h s (List.mem_cons_of_mem _ hs)
    cases s with
    | unknown k p =>
      rw [replace, Value.recordsOf, Value.recordsOf]
      exact (List.Sublist.refl _).append ih
    | known g y =>
      rw [replace]
      split
      · rename_i hg
        rw [Value.recordsOf, Value.recordsOf]
        exact (h _ (by simp) hg).append (List.Sublist.refl _)
      · rw [Value.recordsOf, Value.recordsOf]
        exact (List.Sublist.refl _).append ih

theorem recordsEach_sublist {xs : List Value} (h : xs.Sublist vs) :
    (Value.recordsEach f xs).Sublist (Value.recordsEach f vs) := by
  induction h with
  | slnil => exact List.Sublist.refl _
  | cons r _ ih =>
    rw [Value.recordsEach]
    exact ih.trans (List.sublist_append_right _ _)
  | cons_cons r _ ih =>
    rw [Value.recordsEach, Value.recordsEach]
    exact (List.Sublist.refl _).append ih

end Size

/-- What a message holds of a list, which has no slot when it is empty. -/
def Lists (f : Field) (vs : List Value) (m : Message) : Prop :=
  m = [] ∧ vs = [] ∨ m = [.known f (.many vs)]

/-- A message in whose list some messages were dropped. -/
structure Drops (S : Schema) (t : MessageType) (n : Nat) (f : Field) (vs kept : List Value)
    (m m' : Message) : Prop where
  shaped : Shaped S t m'
  others : ∀ j, j ≠ n → m'.only j = m.only j
  before : Lists f vs (m.only n)
  after : Lists f kept (m'.only n)
  length : (Value.encodeSlots m').length ≤ (Value.encodeSlots m).length

theorem set_many_nil (hp : f.presence = false) (vs : List Value) :
    Message.set f (.many vs) [] = if vs.isEmpty then [] else [.known f (.many vs)] := by
  unfold set
  simp only [hp, Value.isZero, Bool.not_false, Bool.true_and]
  split <;> rfl

theorem lists_set (hp : f.presence = false) (vs : List Value) :
    Lists f vs (Message.set f (.many vs) []) := by
  rw [set_many_nil hp]
  split
  · rename_i h
    exact Or.inl ⟨rfl, List.isEmpty_iff.mp h⟩
  · exact Or.inr rfl

/-- Setting a list to some of what it holds leaves no more records. -/
theorem recordsOf_set_sublist {xs : List Value} (ho : f.oneof = none) (hn : f.number = n)
    (hpacked : f.packed = false) (hp : f.presence = false) (hm : Lists f vs (m.only n))
    (h : xs.Sublist vs) :
    (Value.recordsOf (Message.set f (.many xs) m)).Sublist (Value.recordsOf m) := by
  unfold set
  rw [filter_rivals ho]
  dsimp only
  split
  · exact recordsOf_filter_sublist _ m
  · rename_i hz
    split
    · refine recordsOf_replace_sublist fun s hs hh => ?_
      have hmem : s ∈ m.only n := mem_only_iff.mpr ⟨hs, (Slot.number_of_holds hh).trans hn⟩
      rcases hm with ⟨hm, -⟩ | hm
      · rw [hm] at hmem
        cases hmem
      · rw [hm, List.mem_singleton] at hmem
        rw [hmem, Value.slotRecords, Value.records, Value.records, hpacked]
        exact recordsEach_sublist h
    · rename_i hnone
      exfalso
      rcases hm with ⟨-, rfl⟩ | hm
      · rw [List.sublist_nil.mp h] at hz
        simp [hp, Value.isZero] at hz
      · rw [← get?_only hn m, hm, get?, if_pos (Slot.holds_known f _)] at hnone
        simp at hnone

theorem drops_of_set (hS : S.Regular) (ht : t ∈ S.messages) (hm : Shaped S t m)
    (hf : Holds S t n f w) (hr : f.repeated = true) (ho : f.oneof = none)
    (hp : f.presence = false) (p : Value → Bool) :
    ∃ vs, m.get S f = .many vs ∧ (touch S f m).get S f = .many vs ∧
      (∀ x ∈ vs, ∃ inner, x = .message inner ∧ Shaped S w inner) ∧
      Drops S t n f vs (vs.filter p) m (Message.set f (.many (vs.filter p)) (touch S f m)) := by
  obtain ⟨vs, hget, hvs, honly⟩ := get_of_holds_many hm hf hr
  have hn : f.number = n := Schema.field?_number hf.field
  have hfield : S.field? t f.number = some f := hn ▸ hf.field
  have hshaped : ∀ {k : Message} (xs : List Value), Shaped S t k → xs.Sublist vs →
      Shaped S t (k.set f (.many xs)) := by
    intro k xs hk hxs
    refine hk.setMany hfield hr fun x hx => ?_
    obtain ⟨inner, rfl, hin⟩ := hvs x (hxs.subset hx)
    rw [Value.Shaped]
    exact ⟨rfl, Or.inr ⟨w, hf.type, hin⟩⟩
  have hkept : (vs.filter p).Sublist vs := List.filter_sublist
  have htouch : Shaped S t (touch S f m) := by
    rw [touch, hget]
    exact hshaped vs hm (List.Sublist.refl _)
  have hother : ∀ j, j ≠ n → ∀ x : Value, ∀ k : Message, k.Sorted →
      (k.set f x).only j = k.only j := fun j hj x k hk =>
    only_set_other hk ho fun he => hj (he.symm.trans hn)
  have hone : ∀ x : Value, (Message.set f x m).only n = Message.set f x [] := by
    intro x
    rw [only_set hm.sorted ho hn]
    rcases honly with ⟨h, -⟩ | h
    · rw [h]
    · rw [h, set_known]
  -- creating the list first makes no difference once it is set
  have hset : Message.set f (.many (vs.filter p)) (touch S f m) =
      Message.set f (.many (vs.filter p)) m := by
    refine (hshaped _ htouch hkept).sorted.ext (hshaped _ hm hkept).sorted fun j => ?_
    by_cases hj : j = n
    · subst hj
      rw [only_set htouch.sorted ho hn, hone, touch, hget, hone]
      rcases lists_set hp vs with ⟨h, -⟩ | h
      · rw [h]
      · rw [h, set_known]
    · rw [hother j hj _ _ htouch.sorted, touch, hother j hj _ _ hm.sorted,
        hother j hj _ _ hm.sorted]
  refine ⟨vs, hget, ?_, hvs, ?_⟩
  · rw [touch, hget, Message.get, get?_set_eq]
    split
    · rename_i hz
      simp only [Value.isZero, Bool.and_eq_true, List.isEmpty_iff] at hz
      rw [hz.2, Schema.default, if_pos hr]
      rfl
    · rfl
  · rw [hset]
    have hafter := hshaped _ hm hkept
    refine ⟨hafter, fun j hj => hother j hj _ _ hm.sorted, honly, ?_, ?_⟩
    · rw [hone]
      exact lists_set hp _
    · rw [Value.encodeSlots_eq_records hS t ht _ hafter.typed,
        Value.encodeSlots_eq_records hS t ht m hm.typed]
      exact length_encodeAll_le (recordsOf_set_sublist ho hn
        (hf.not_packed (hS.field ht hf.field)) hp
        honly hkept)

section Reads

variable {ms : List Message} {kept : List Value}

theorem recordsOf_lists (hf : Holds S t n f w) (hreg : f.Regular)
    (h : Lists f (ms.map Value.message) m) :
    Value.recordsOf m = ms.map fun x => (n, .delimited (Value.encodeSlots x)) := by
  rcases h with ⟨rfl, h⟩ | rfl
  · rw [List.map_eq_nil_iff.mp h]
    rfl
  · exact recordsOf_messages hf hreg ms

/-- A typed reader finds in a list in which messages were dropped what it found before, but for what
it made of those. -/
theorem Drops.reads {p : Value → Bool} {q : Message → Bool} (hS : S.Regular)
    (hB : ∀ j, Calm B u j) (ht : t ∈ S.messages) (hf : Holds S t n f w) (hg : Holds B u n g v)
    (hr : g.repeated = true) (hreq : ∀ f ∈ v.fields, f.required = false)
    (h : Drops S t n f (ms.map Value.message) ((ms.map Value.message).filter p) m m')
    (hq : ∀ x ∈ ms, ∀ d y, Fills B .typed d v [] (Value.encodeSlots x) y → p (.message x) = q y)
    (hk : Steps (readField B .typed depth u) [] (Value.recordsOf m) k) :
    ∃ k', Steps (readField B .typed depth u) [] (Value.recordsOf m') k' ∧
      (∀ j, j ≠ n → k'.only j = k.only j) ∧ ∃ ks : List Message,
        k.valuesOf g = ks.map Value.message ∧ k'.valuesOf g = (ks.filter q).map Value.message ∧
        ks.length = (ms.map Value.message).length ∧
        (ks.filter q).length = ((ms.map Value.message).filter p).length := by
  have hreg : f.Regular := hS.field ht hf.field
  have hgn : g.number = n := Schema.field?_number hg.field
  have honly := fun j => steps_message_only (hB j) hk
  have hfilter : (ms.map Value.message).filter p =
    (ms.filter (p ∘ Value.message)).map Value.message :=
    List.filter_map
  have hone := honly n
  rw [recordsOf_lists hf hreg h.before] at hone
  obtain ⟨ks, hks, hvalues⟩ := inners_of_steps hg hr (fun _ => number_of_mem_messages) hone
  -- each message comes with what is read of it, and with the answer that both get
  have hboth : List.Forall₂ (fun x y => p (.message x) = q y ∧
      (InRange n ∧ ∃ inner, Inside B .typed depth v [] (.delimited (Value.encodeSlots x)) inner ∧
        y = finish B .typed v inner)) ms ks := by
    refine List.Forall₂.imp (fun x y hxy => ⟨?_, hxy.2⟩) ((List.forall₂_and_left _ _).mpr
      ⟨fun _ hx => hx, List.forall₂_map_left_iff.mp hks⟩)
    obtain ⟨hx, -, inner, ⟨d, b, -, hb, -, hfills⟩, rfl⟩ := hxy
    rw [finish_of_none hreq]
    exact hq x hx d inner (Payload.delimited.inj hb ▸ hfills)
  have hkept : List.Forall₂ (fun x y => p (.message x) = q y ∧
      (InRange n ∧ ∃ inner, Inside B .typed depth v [] (.delimited (Value.encodeSlots x)) inner ∧
        y = finish B .typed v inner)) (ms.filter (p ∘ Value.message)) (ks.filter q) :=
    List.rel_filter (fun x y hxy => by
      dsimp only [Function.comp_apply]
      rw [hxy.1]) hboth
  obtain ⟨kn, hkn, hkn'⟩ := steps_of_inners hg hr (fun _ => number_of_mem_messages)
    (List.forall₂_map_left_iff.mpr (hkept.imp fun _ _ hxy => hxy.2)) []
  rw [← recordsOf_lists hf hreg (hfilter ▸ h.after)] at hkn
  obtain ⟨k', hk'⟩ : ∃ k', Steps (readField B .typed depth u) [] (Value.recordsOf m') k' := by
    refine exists_steps_message hB fun j => ?_
    by_cases hj : j = n
    · exact ⟨kn, hj ▸ hkn⟩
    · rw [h.others j hj]
      exact ⟨_, honly j⟩
  refine ⟨k', hk', fun j hj => ?_, ks, ?_, ?_, ?_, ?_⟩
  · have := steps_message_only (hB j) hk'
    rw [h.others j hj] at this
    exact this.unique (honly j)
  · rw [Message.valuesOf, ← get?_only hgn k, ← Message.valuesOf, hvalues]
    rfl
  · rw [Message.valuesOf, ← get?_only hgn k', ← hkn.unique (steps_message_only (hB n) hk'),
      ← Message.valuesOf, hkn']
    rfl
  · rw [List.length_map, hboth.length_eq]
  · rw [hfilter, List.length_map, hkept.length_eq]

end Reads

end DescriptorKit.Message
