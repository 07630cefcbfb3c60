import DescriptorKit.Proofs.Message.Element

/-!
Messages that differ in some places only. A place is told by the field numbers that lead to it, with
the index behind the number where a field holds a list of messages, just as source locations tell
the places of declarations.
-/
namespace DescriptorKit.Message

/-- What two messages have at a place differs at most as `may` allows, there or further down. Either
side is all that a message holds under one number. -/
inductive Differs (may : List Nat → Message → Message → Prop) :
    List Nat → Message → Message → Prop where
  | same (p : List Nat) (m : Message) : Differs may p m m
  | allowed {p : List Nat} {m m' : Message} (h : may p m m') : Differs may p m m'
  | message {p : List Nat} {f : Field} {k k' : Message} (hk : k.Sorted) (hk' : k'.Sorted)
      (h : ∀ n, Differs may (p ++ [n]) (k.only n) (k'.only n)) :
      Differs may p [.known f (.message k)] [.known f (.message k')]
  | created {p : List Nat} {f : Field} {k : Message} (hk : k ≠ [])
      (h : ∀ n, Differs may (p ++ [n]) [] (k.only n)) : Differs may p [] [.known f (.message k)]
  | element {p : List Nat} {f : Field} {vs : List Value} {i : Nat} {k k' : Message} (hk : k.Sorted)
      (hk' : k'.Sorted) (hi : vs[i]? = some (.message k))
      (h : ∀ n, Differs may (p ++ [i, n]) (k.only n) (k'.only n)) :
      Differs may p [.known f (.many vs)] [.known f (.many (vs.set i (.message k')))]
  | trans {p : List Nat} {m m' m'' : Message} (h : Differs may p m m') (h' : Differs may p m' m'') :
      Differs may p m m''

namespace Differs

variable {may might : List Nat → Message → Message → Prop} {p q : List Nat} {m m' : Message}

theorem mono (h : Differs may p m m') (hm : ∀ q k k', p <+: q → may q k k' → might q k k') :
    Differs might p m m' := by
  have hbelow : ∀ {p q r : List Nat}, p ++ q <+: r → p <+: r := fun h =>
    (List.prefix_append _ _).trans h
  induction h with
  | same p m => exact .same p m
  | allowed h => exact .allowed (hm _ _ _ (List.prefix_refl _) h)
  | message hk hk' _ ih =>
    exact .message hk hk' fun n => ih n fun q k k' hp => hm q k k' (hbelow hp)
  | created hk _ ih => exact .created hk fun n => ih n fun q k k' hp => hm q k k' (hbelow hp)
  | element hk hk' hi _ ih =>
    exact .element hk hk' hi fun n => ih n fun q k k' hp => hm q k k' (hbelow hp)
  | trans _ _ ih ih' => exact .trans (ih hm) (ih' hm)

/-- Where nothing is allowed at a place or below, nothing differs there. -/
theorem eq (h : Differs may p m m') (hno : ∀ q k k', p <+: q → ¬ may q k k') : m = m' := by
  have hbelow : ∀ {p q : List Nat}, (∀ r k k', p <+: r → ¬ may r k k') →
      ∀ r k k', p ++ q <+: r → ¬ may r k k' := fun hno r k k' hp =>
    hno r k k' ((List.prefix_append _ _).trans hp)
  induction h with
  | same p m => rfl
  | allowed h => exact absurd h (hno _ _ _ (List.prefix_refl _))
  | message hk hk' _ ih => rw [hk.ext hk' fun n => ih n (hbelow hno)]
  | @created p f k hk _ ih =>
    obtain ⟨s, hs⟩ := List.exists_mem_of_ne_nil k hk
    have hmem : s ∈ k.only s.number := mem_only_iff.mpr ⟨hs, rfl⟩
    rw [← ih s.number (hbelow hno)] at hmem
    cases hmem
  | element hk hk' hi _ ih =>
    obtain ⟨hlt, he⟩ := List.getElem?_eq_some_iff.mp hi
    rw [← hk.ext hk' fun n => ih n (hbelow hno), ← he, List.set_getElem_self]
  | trans _ _ ih ih' => exact (ih hno).trans (ih' hno)

end Differs

variable {S B : Schema} {t u v : MessageType} {g o : Field} {m m' : Message} {s : Scalar}
  {n i : Nat}
  {p : List Nat} {may : List Nat → Message → Message → Prop}

/-- An option that is set differs in its own place. -/
theorem SetsOption.differs (h : SetsOption S B t v o g s m m') (hp : g.presence = true)
    (hmay : ∀ k k', may (p ++ [o.number, g.number]) k k') (n : Nat) :
    Differs may (p ++ [n]) (m.only n) (m'.only n) := by
  by_cases hn : n = o.number
  · subst hn
    obtain ⟨f, w, x, options, ho⟩ := h.exists_options
    have hxsame := ho.option_same
    have hshaped := ho.shaped
    have hpresence : x.presence = true := hxsame.presence.trans hp
    have hinner : ∀ j, Differs may (p ++ [o.number] ++ [j]) (Message.only j options)
        (Message.only j (Message.set x (.scalar s) options)) := by
      intro j
      by_cases hj : j = g.number
      · subst hj
        refine .allowed ?_
        rw [List.append_assoc]
        exact hmay _ _
      · have hxj : x.number ≠ j := fun he => hj (he.symm.trans hxsame.number)
        rw [only_set_other hshaped.sorted hxsame.oneof hxj]
        exact .same _ _
    rw [ho.after]
    rcases ho.before with ⟨hold, rfl⟩ | hold
    · rw [hold]
      refine .created (fun he => ?_) hinner
      have hg := get?_set (v := .scalar s) (Or.inl hpresence) []
      rw [he] at hg
      cases hg
    · rw [hold]
      exact .message hshaped.sorted (hshaped.sorted.set _ _) hinner
  · rw [h.others n hn]
    exact .same _ _

/-- Where one message in a list changes, the list differs as that message does. -/
theorem SetsElement.differs {step : MessageType → Message → Message × Except Breach Unit}
    (h : SetsElement S B t v n g i step m m')
    (hstep : ∀ w inner, Schema.Counterpart S B w v → Shaped S w inner → (step w inner).2 = .ok () →
      Shaped S w (step w inner).1 ∧ ∀ j, Differs may (p ++ [n, i] ++ [j]) (Message.only j inner)
        (Message.only j (step w inner).1)) (j : Nat) :
    Differs may (p ++ [j]) (m.only j) (m'.only j) := by
  by_cases hj : j = n
  · subst hj
    obtain ⟨f, w, vs, inner, -, -, hcw, hvs, hold, hi, hok, hnew⟩ := h.exists_element
    obtain ⟨k, hk, hshaped⟩ := hvs _ (List.mem_of_getElem? hi)
    obtain rfl := Value.message.inj hk
    obtain ⟨hshaped', hinner⟩ := hstep w inner hcw hshaped hok
    rw [hold, hnew]
    refine .element hshaped.sorted hshaped'.sorted hi fun r => ?_
    have := hinner r
    rw [List.append_assoc] at this ⊢
    exact this
  · rw [h.others j hj]
    exact .same _ _

end DescriptorKit.Message
