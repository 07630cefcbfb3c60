import DescriptorKit.Proofs.Message.Element
import DescriptorKit.Proofs.Message.Nests

/-!
Messages that one schema read and wrote again. Where another schema declares what both declare in
the same way, it reads from the records that were written what it would have read before.
-/
namespace DescriptorKit.Message
open Wire Payload

variable {S B : Schema} {first reading : Reading} {depth d n : Nat} {t u w v : MessageType}
  {f g : Field} {m k inner : Message} {rs : List (Nat × Payload)} {p : Payload} {x : Value}
  {us vs ws : List Value} {ks : List Message}

/-- Of values that an unset field is set to, the last one stays. -/
theorem set_set_nil (f : Field) (x y : Value) :
    (Message.set f x []).set f y = Message.set f y [] := by
  rw [set_nil f x]
  split
  · rfl
  · exact set_known f y x

theorem put_put_nil (f : Field) (vs ws : List Value) :
    put f ws (put f vs []) = put f (vs ++ ws) [] := by
  unfold put
  split
  · rw [valuesOf_set, set_set_nil]
    rfl
  · rw [List.foldl_append]

theorem put_nil (hp : f.repeated = true → f.presence = false) : put f [] [] = [] := by
  unfold put
  split
  · rename_i hr
    rw [set_nil, hp hr]
    rfl
  · rfl

/-- Two fields that are declared alike hold the same of the same values. -/
theorem put_same (h : f.Same g) (vs : List Value) :
    put f vs [] = [] ∧ put g vs [] = [] ∨
      ∃ x, put f vs [] = [.known f x] ∧ put g vs [] = [.known g x] := by
  have hset : ∀ x, Message.set f x [] = [] ∧ Message.set g x [] = [] ∨
      ∃ y, Message.set f x [] = [.known f y] ∧ Message.set g x [] = [.known g y] := by
    intro x
    rw [set_nil, set_nil, h.presence]
    split
    · exact Or.inl ⟨rfl, rfl⟩
    · exact Or.inr ⟨x, rfl, rfl⟩
  have hfold : ∀ (vs : List Value) (m k : Message),
      (m = [] ∧ k = [] ∨ ∃ y, m = [.known f y] ∧ k = [.known g y]) →
        vs.foldl (fun m v => m.set f v) m = [] ∧ vs.foldl (fun m v => m.set g v) k = [] ∨
          ∃ y, vs.foldl (fun m v => m.set f v) m = [.known f y] ∧
            vs.foldl (fun m v => m.set g v) k = [.known g y] := by
    intro vs
    induction vs with
    | nil => exact fun m k hmk => hmk
    | cons x vs ih =>
      intro m k hmk
      rw [List.foldl_cons, List.foldl_cons]
      apply ih
      rcases hmk with ⟨rfl, rfl⟩ | ⟨y, rfl, rfl⟩
      · exact hset x
      · rw [set_known, set_known]
        exact hset x
  rw [put, put, h.repeated]
  split
  · exact hset _
  · exact hfold vs [] [] (Or.inl ⟨rfl, rfl⟩)

/-- Values that come from records one after the other, those of each by themselves. -/
inductive Gives (Q : Payload → List Value → Prop) : List (Nat × Payload) → List Value → Prop where
  | nil : Gives Q [] []
  | cons {n : Nat} {p : Payload} {rs : List (Nat × Payload)} {vs ws : List Value} (hn : InRange n)
      (h : Q p vs) (hs : Gives Q rs ws) : Gives Q ((n, p) :: rs) (vs ++ ws)

/-- The values that records give are each given by one of them. -/
theorem Gives.exists_record {Q : Payload → List Value → Prop} (h : Gives Q rs vs) (hx : x ∈ vs) :
    ∃ r ∈ rs, ∃ us, Q r.2 us ∧ x ∈ us := by
  induction h with
  | nil => cases hx
  | @cons n p rs vs ws _ hone _ ih =>
    rcases List.mem_append.mp hx with hx | hx
    · exact ⟨(n, p), List.mem_cons_self, vs, hone, hx⟩
    · obtain ⟨r, hr, hus⟩ := ih hx
      exact ⟨r, List.mem_cons_of_mem _ hr, hus⟩

/-- A field whose records put values into it holds in the end the values of all of them. -/
theorem steps_nil_iff_gives {Q : Payload → List Value → Prop}
    (hp : f.repeated = true → f.presence = false) (hn : ∀ r ∈ rs, r.1 = n)
    (hstep : ∀ us p m, Takes (readField S reading depth t (put f us []) n p.wireType) (p.body n) m ↔
      ∃ vs, Q p vs ∧ m = put f vs (put f us [])) :
    Steps (readField S reading depth t) [] rs m ↔ ∃ vs, Gives Q rs vs ∧ m = put f vs [] := by
  have hgoes : ∀ us, Steps (readField S reading depth t) (put f us []) rs m ↔
      ∃ vs, Gives Q rs vs ∧ m = put f (us ++ vs) [] := by
    induction rs with
    | nil =>
      intro us
      constructor
      · intro h
        cases h
        exact ⟨[], .nil, by rw [List.append_nil]⟩
      · rintro ⟨vs, h, rfl⟩
        cases h
        rw [List.append_nil]
        exact .nil _
    | cons r rs ih =>
      obtain ⟨number, p⟩ := r
      obtain rfl : number = n := hn (number, p) (by simp)
      have ih := ih fun r hr => hn r (List.mem_cons_of_mem _ hr)
      intro us
      constructor
      · intro h
        cases h with
        | cons hrange h hs =>
          obtain ⟨vs, hvs, rfl⟩ := (hstep us p _).mp h
          rw [put_put_nil] at hs
          obtain ⟨ws, hws, rfl⟩ := (ih _).mp hs
          exact ⟨vs ++ ws, .cons hrange hvs hws, by rw [List.append_assoc]⟩
      · rintro ⟨vs, h, rfl⟩
        cases h with
        | @cons _ _ _ vs ws hrange hvs hws =>
          refine .cons hrange ((hstep us p _).mpr ⟨vs, hvs, rfl⟩) ?_
          rw [put_put_nil]
          exact (ih _).mpr ⟨ws, hws, by rw [List.append_assoc]⟩
  have := hgoes []
  rwa [put_nil hp] at this

section Plain

theorem gives_iff_tells {kind : Kind} {repeated : Bool} (hn : ∀ r ∈ rs, r.1 = n) :
    Gives (fun p vs => Told kind repeated p.wireType (p.body n) vs) rs vs ↔
      Tells kind repeated rs vs := by
  induction rs generalizing vs with
  | nil => constructor <;> (intro h; cases h; exact .nil)
  | cons r rs ih =>
    obtain ⟨number, p⟩ := r
    obtain rfl : number = n := hn (number, p) (by simp)
    have ih : ∀ ws, _ := fun ws => @ih ws fun r hr => hn r (List.mem_cons_of_mem _ hr)
    constructor
    · intro h
      cases h with
      | cons hrange h hs => exact .cons hrange h ((ih _).mp hs)
    · intro h
      cases h with
      | cons hrange h hs => exact .cons hrange h ((ih _).mpr hs)

/-- A field of single values holds what its records tell. -/
theorem steps_nil_iff_tells (hf : Plain S t n f) (hp : f.repeated = true → f.presence = false)
    (hn : ∀ r ∈ rs, r.1 = n) :
    Steps (readField S reading depth t) [] rs m ↔
      ∃ vs, Tells f.kind f.repeated rs vs ∧ m = put f vs [] := by
  simp only [← gives_iff_tells hn]
  exact steps_nil_iff_gives hp hn fun us p m => readField_iff_told hf

/-- What a field of many values holds. -/
theorem many_of_shaped (h : x.Shaped S f false) :
    ∃ vs, x = .many vs ∧ ∀ y ∈ vs, y.Shaped S f true := by
  cases x with
  | scalar s =>
    rw [Value.Shaped] at h
    cases h.1
  | message inner =>
    rw [Value.Shaped] at h
    cases h.1
  | many vs =>
    rw [Value.Shaped, Value.allShaped_iff] at h
    exact ⟨vs, rfl, h.2⟩

/-- The records that a value of a field was written as tell it. -/
theorem exists_tells_records (hf : Plain S t n f) (hreg : f.Regular) (hn : InRange f.number)
    (hx : x.Shaped S f (!f.repeated))
    (hlen : ∀ r ∈ Value.records f x, (r.2.body r.1).length < 2 ^ 64) :
    ∃ vs, Tells f.kind f.repeated (Value.records f x) vs ∧
      ∀ g : Field, g.repeated = f.repeated → put g vs [] = Message.set g x [] := by
  have hone : ∀ y, y.Shaped S f true →
      (∀ r ∈ Value.records f y, (r.2.body r.1).length < 2 ^ 64) →
        ∀ {rs ws}, Tells f.kind f.repeated rs ws →
          Tells f.kind f.repeated (Value.records f y ++ rs) (y :: ws) := by
    intro y hy hlen rs ws hws
    obtain ⟨s, rfl, hs⟩ := exists_scalar_of_shaped hf hy
    rw [Value.records] at hlen ⊢
    exact .cons hn (told_of_fits hf.single hs (hlen _ (List.mem_singleton_self _))) hws
  by_cases hr : f.repeated = true
  · rw [hr] at hx
    obtain ⟨vs, rfl, hvs⟩ := many_of_shaped hx
    refine ⟨vs, ?_, fun g hg => by rw [put, if_pos (hg.trans hr)]; rfl⟩
    rw [Value.records] at hlen ⊢
    split at hlen
    · rename_i hpacked
      rw [if_pos hpacked]
      have hpacks := hreg.packable_of_packed hpacked
      rw [Field.packable_eq, hr, Bool.true_and] at hpacks
      split at hlen
      · rename_i hempty
        rw [List.isEmpty_iff.mp hempty]
        exact .nil
      · rename_i hempty
        rw [if_neg hempty]
        have hruns := runs_encodePacked hf.single hpacks
          (fun y hy => exists_scalar_of_shaped hf (hvs y hy)) []
        rw [List.append_nil] at hruns
        have htold := Told.packed hr hpacks (Cursor.readVarint_encode
          (length_lt_of_body (hlen _ (List.mem_singleton_self _)))) hruns
        rw [List.reverse_reverse] at htold
        simpa using Tells.cons hn htold .nil
    · rename_i hpacked
      rw [if_neg hpacked]
      clear hx
      induction vs with
      | nil => exact .nil
      | cons y vs ih =>
        rw [Value.recordsEach] at hlen ⊢
        refine hone y (hvs y (by simp)) (fun r hr => hlen r (List.mem_append_left _ hr)) ?_
        exact ih (fun y hy => hvs y (List.mem_cons_of_mem _ hy))
          fun r hr => hlen r (List.mem_append_right _ hr)
  · rw [show f.repeated = false by simpa using hr] at hx
    have htells := hone x hx hlen .nil
    rw [List.append_nil] at htells
    exact ⟨[x], htells, fun g hg => by rw [put, if_neg (by rwa [hg])]; rfl⟩

theorem inRange_of_steps (hn : ∀ r ∈ rs, r.1 = n) (h : Steps (readField S reading depth t) k rs m)
    (hne : m ≠ k) : InRange n := by
  cases h with
  | nil => exact absurd rfl hne
  | @cons _ _ _ number p _ hr _ _ => exact hn (number, p) (by simp) ▸ hr

/-- What was read of a field of single values and written again is read by a field that is declared
alike as what that had read before. -/
theorem steps_plain (hS : S.Regular) (ht : t ∈ S.messages) (hf : Plain S t n f)
    (hg : Plain B u n g) (hsame : f.Same g)
    (hp : g.repeated = true → g.presence = false) (hn : ∀ r ∈ rs, r.1 = n)
    (hm : Steps (readField S first depth t) [] rs m)
    (hk : Steps (readField B reading d u) [] rs k) (hshaped : Shaped S t m)
    (hlen : ∀ r ∈ Value.recordsOf m, (r.2.body r.1).length < 2 ^ 64) :
    Steps (readField B reading d u) [] (Value.recordsOf m) k := by
  have hpf : f.repeated = true → f.presence = false := by
    rw [hsame.repeated, hsame.presence]
    exact hp
  obtain ⟨vs, hvs, rfl⟩ := (steps_nil_iff_tells hf hpf hn).mp hm
  obtain ⟨ws, hws, rfl⟩ := (steps_nil_iff_tells hg hp hn).mp hk
  rw [hsame.kind, hsame.repeated] at hvs
  obtain rfl := hvs.unique hg.single hws
  rcases put_same hsame vs with ⟨hfn, hgn⟩ | ⟨x, hfx, hgx⟩
  · rw [hfn, hgn, Value.recordsOf]
    exact .nil _
  · rw [hfx] at hshaped hlen ⊢
    rw [Value.recordsOf, Value.recordsOf, List.append_nil, Value.slotRecords] at hlen ⊢
    have hslot := hshaped.slot (List.mem_singleton_self _)
    rw [Slot.Shaped] at hslot
    have hfn : f.number = n := Schema.field?_number hf.field
    have hrange : InRange f.number := hfn ▸ inRange_of_steps hn hm (by simp [hfx])
    obtain ⟨us, htells, hput⟩ :=
      exists_tells_records hf (hS.field ht hf.field) hrange hslot.2.2 hlen
    rw [hsame.kind, hsame.repeated] at htells
    refine (steps_nil_iff_tells hg hp fun r hr => ?_).mpr ⟨us, htells, ?_⟩
    · rw [Value.number_of_mem_records f x r hr, hfn]
    · have hzero : (!g.presence && x.isZero) = false := by
        rcases hslot.2.1 with h | h
        · rw [← hsame.presence, h]
          rfl
        · rw [h, Bool.and_false]
      rw [hput g hsame.repeated.symm, hgx, set_nil, hzero, if_neg Bool.false_ne_true]

end Plain

section Nested

theorem steps_nil_iff_inside (hf : Holds S t n f u) (hr : f.repeated = true)
    (hp : f.presence = false) (hn : ∀ r ∈ rs, r.1 = n) :
    Steps (readField S reading depth t) [] rs m ↔ ∃ vs, Gives (fun p vs => ∃ inner,
      Inside S reading depth u [] p inner ∧ vs = [.message (finish S reading u inner)]) rs vs ∧
        m = put f vs [] := by
  refine steps_nil_iff_gives (fun _ => hp) hn fun us p m => ?_
  rw [readField_iff_inside hf]
  constructor
  · rintro ⟨inner, hin, rfl⟩
    rw [startOf_repeated hr] at hin
    refine ⟨_, ⟨inner, hin, rfl⟩, ?_⟩
    rw [putNested_repeated hr hf.map, put.eq_1 f [_], if_pos hr]
  · rintro ⟨_, ⟨inner, hin, rfl⟩, rfl⟩
    refine ⟨inner, by rwa [startOf_repeated hr], ?_⟩
    rw [putNested_repeated hr hf.map, put.eq_1 f [_], if_pos hr]

/-- A field of a single message holds what the contents of its records make one after the other. -/
theorem exists_merged (hf : Holds S t n f u) (hr : f.repeated = false)
    (hfinish : ∀ m, finish S reading u m = m) (hn : ∀ r ∈ rs, r.1 = n) (hne : rs ≠ [])
    (h : Steps (readField S reading depth t) [] rs m) :
    ∃ (d : Nat) (bs : List Bytes) (inner : Message), depth = d + 1 ∧
      rs = bs.map (fun b => (n, .delimited b)) ∧ Fills S reading d u [] bs.flatten inner ∧
        m = [.known f (.message inner)] := by
  have hput : ∀ old inner, putNested S reading u f [.known f (.message old)] inner =
      [.known f (.message inner)] := by
    intro old inner
    rw [putNested_single hr hf.map, hfinish, set_known, set_nil_message]
  have hstart : ∀ old, startOf f [.known f (.message old)] = old := by
    intro old
    rw [startOf, hf.map, hr, get?, if_pos (Slot.holds_known f _)]
    rfl
  have hmore : ∀ {d rs old m}, (∀ r ∈ rs, r.1 = n) →
      Steps (readField S reading (d + 1) t) [.known f (.message old)] rs m →
        ∃ (bs : List Bytes) (inner : Message), rs = bs.map (fun b => (n, .delimited b)) ∧
          Fills S reading d u old bs.flatten inner ∧ m = [.known f (.message inner)] := by
    intro d rs old m hn h
    induction rs generalizing old with
    | nil =>
      cases h
      exact ⟨[], old, rfl, .nil _, rfl⟩
    | cons r rs ih =>
      obtain ⟨number, p⟩ := r
      obtain rfl : number = n := hn (number, p) (by simp)
      cases h with
      | cons _ h hs =>
        obtain ⟨inner, ⟨d', b, hd, rfl, -, hin⟩, rfl⟩ := (readField_iff_inside hf).mp h
        obtain rfl := Nat.succ.inj hd
        rw [hstart] at hin
        rw [hput] at hs
        obtain ⟨bs, inner', rfl, hfills, rfl⟩ :=
          ih (fun r hr => hn r (List.mem_cons_of_mem _ hr)) hs
        exact ⟨b :: bs, inner', rfl, hin.append hfills, rfl⟩
  cases h with
  | nil => exact absurd rfl hne
  | @cons _ _ _ number p rs _ h hs =>
    obtain rfl : number = n := hn (number, p) (by simp)
    obtain ⟨inner, ⟨d, b, rfl, rfl, -, hin⟩, rfl⟩ := (readField_iff_inside hf).mp h
    rw [putNested_single hr hf.map, hfinish, set_nil_message] at hs
    obtain ⟨bs, inner', rfl, hfills, rfl⟩ := hmore (fun r hr => hn r (List.mem_cons_of_mem _ hr)) hs
    have hnil : startOf f [] = [] := by
      rw [startOf]
      split <;> rfl
    rw [hnil] at hin
    exact ⟨d, b :: bs, inner', rfl, rfl, hin.append hfills, rfl⟩

/-- What the first reader makes of the bytes is written so that the second one reads it as it would
have before. -/
def Rereads (S B : Schema) (first reading : Reading) (depth : Nat) (t u : MessageType) (b : Bytes) :
    Prop :=
  ∀ m k, Fills S first depth t [] b m → Fills B reading depth u [] b k →
    (Value.encodeSlots (finish S first t m)).length < 2 ^ 64 →
      ∃ k', Fills B reading depth u [] (Value.encodeSlots (finish S first t m)) k' ∧
        finish B reading u k' = finish B reading u k

/-- What is known of the messages in the records of a field: of each one where the field holds many,
and of all of them together where it holds one. -/
structure Contents (W : Bytes → Prop) (g : Field) (n : Nat) (rs : List (Nat × Payload)) : Prop where
  each : g.repeated = true → ∀ b, (n, Payload.delimited b) ∈ rs → W b
  merged : g.repeated = false → ∀ bs : List Bytes,
    rs = bs.map (fun b => (n, .delimited b)) → W bs.flatten

theorem Contents.imp {W W' : Bytes → Prop} (h : Contents W g n rs) (hW : ∀ b, W b → W' b) :
    Contents W' g n rs :=
  ⟨fun hr b hb => hW b (h.each hr b hb), fun hr bs hbs => hW _ (h.merged hr bs hbs)⟩

theorem Contents.of_forall {W : Bytes → Prop} (h : ∀ b, W b) : Contents W g n rs :=
  ⟨fun _ b _ => h b, fun _ _ _ => h _⟩

theorem recordsOf_put_many (hr : f.repeated = true) (hpacked : f.packed = false) (vs : List Value) :
    Value.recordsOf (put f vs []) = Value.recordsEach f vs := by
  rw [put, if_pos hr, show Message.valuesOf f [] = [] from rfl, List.nil_append, set_nil]
  split
  · rename_i hz
    simp only [Bool.and_eq_true, Value.isZero, List.isEmpty_iff] at hz
    rw [hz.2, Value.recordsOf, Value.recordsEach]
  · rw [Value.recordsOf, Value.recordsOf, List.append_nil, Value.slotRecords, Value.records,
      hpacked, if_neg Bool.false_ne_true]

/-- The messages of a field, one by one. -/
theorem gives_recordsEach (hf : Holds S t n f w) (hn : ∀ r ∈ rs, r.1 = n)
    (hin : ∀ d, depth = d + 1 → ∀ b, (n, Payload.delimited b) ∈ rs →
      Rereads S B first reading d w v b)
    (hvs : Gives (fun p vs => ∃ inner, Inside S first depth w [] p inner ∧
      vs = [.message (finish S first w inner)]) rs vs)
    (hws : Gives (fun p ws => ∃ inner, Inside B reading depth v [] p inner ∧
      ws = [.message (finish B reading v inner)]) rs ws)
    (hlen : ∀ r ∈ Value.recordsEach f vs, (r.2.body r.1).length < 2 ^ 64) :
    Gives (fun p ws => ∃ inner, Inside B reading depth v [] p inner ∧
      ws = [.message (finish B reading v inner)]) (Value.recordsEach f vs) ws := by
  obtain ⟨type, hk⟩ := hf.kind
  have hfn : f.number = n := Schema.field?_number hf.field
  induction hvs generalizing ws with
  | nil =>
    cases hws
    exact .nil
  | @cons number p rs vs vs' hrange hone _ ih =>
    cases hws with
    | @cons _ _ _ ws ws' _ hother hrest =>
      obtain ⟨inner, ⟨d, b, rfl, rfl, -, hfills⟩, rfl⟩ := hone
      obtain ⟨inner', ⟨d', b', hd, hb, -, hfills'⟩, rfl⟩ := hother
      obtain rfl := Nat.succ.inj hd
      obtain rfl := Payload.delimited.inj hb
      have hrecords : Value.recordsEach f ([Value.message (finish S first w inner)] ++ vs') =
          (n, .delimited (Value.encodeSlots (finish S first w inner))) ::
            Value.recordsEach f vs' := by
        rw [List.singleton_append, Value.recordsEach, Value.records, hk, hfn]
        rfl
      rw [hrecords] at hlen ⊢
      have hshort := length_lt_of_body (hlen _ List.mem_cons_self)
      obtain rfl : number = n := hn (number, _) List.mem_cons_self
      obtain ⟨again, hagain, hsame⟩ :=
        hin d rfl b List.mem_cons_self inner inner' hfills hfills' hshort
      refine .cons hrange ⟨again, ⟨d, _, rfl, rfl, hshort, hagain⟩, by rw [hsame]⟩ ?_
      exact ih (fun r hr => hn r (List.mem_cons_of_mem _ hr))
        (fun d hd b hb => hin d hd b (List.mem_cons_of_mem _ hb)) hrest
        fun r hr => hlen r (List.mem_cons_of_mem _ hr)

/-- What was read of a field of messages and written again is read by a field that is declared alike
as what that had read before. -/
theorem steps_messages (hS : S.Regular) (ht : t ∈ S.messages) (hf : Holds S t n f w)
    (hg : Holds B u n g v) (hsame : f.Same g) (hp : g.repeated = true → g.presence = false)
    (hfirst : g.repeated = false → ∀ m, finish S first w m = m)
    (hfinish : g.repeated = false → ∀ m, finish B reading v m = m)
    (hin : ∀ d, depth = d + 1 → Contents (Rereads S B first reading d w v) g n rs)
    (hn : ∀ r ∈ rs, r.1 = n) (hm : Steps (readField S first depth t) [] rs m)
    (hk : Steps (readField B reading depth u) [] rs k)
    (hlen : ∀ r ∈ Value.recordsOf m, (r.2.body r.1).length < 2 ^ 64) :
    Steps (readField B reading depth u) [] (Value.recordsOf m) k := by
  have hfn : f.number = n := Schema.field?_number hf.field
  by_cases hr : g.repeated = true
  · have hrf : f.repeated = true := hsame.repeated.trans hr
    obtain ⟨vs, hvs, rfl⟩ :=
      (steps_nil_iff_inside hf hrf (hsame.presence.trans (hp hr)) hn).mp hm
    obtain ⟨ws, hws, rfl⟩ := (steps_nil_iff_inside hg hr (hp hr) hn).mp hk
    have hpacked := hf.not_packed (hS.field ht hf.field)
    rw [recordsOf_put_many hrf hpacked] at hlen ⊢
    refine (steps_nil_iff_inside hg hr (hp hr) fun r hr => ?_).mpr
      ⟨ws, gives_recordsEach hf hn (fun d hd => (hin d hd).each hr) hvs hws hlen, rfl⟩
    obtain ⟨x, -, hx⟩ := mem_recordsEach_iff.mp hr
    rw [Value.number_of_mem_records f x r hx, hfn]
  · have hr' : g.repeated = false := by simpa using hr
    by_cases hne : rs = []
    · subst hne
      cases hm
      exact hk
    · have hrange : InRange n := by
        cases hm with
        | nil => exact absurd rfl hne
        | @cons _ _ _ number p _ hrange _ _ => exact hn (number, p) List.mem_cons_self ▸ hrange
      obtain ⟨d, bs, inner, rfl, rfl, hfills, rfl⟩ := exists_merged hf (hsame.repeated.trans hr')
        (hfirst hr') hn hne hm
      obtain ⟨d', bs', inner', hd, hbs, hfills', rfl⟩ :=
        exists_merged hg hr' (hfinish hr') hn hne hk
      obtain rfl := Nat.succ.inj hd
      have hinj : Function.Injective fun b : Bytes => (n, Payload.delimited b) :=
        fun a b h => Payload.delimited.inj (Prod.mk.inj h).2
      obtain rfl := List.map_injective_iff.mpr hinj hbs
      obtain ⟨type, hkind⟩ := hf.kind
      rw [recordsOf_message hkind, hfn] at hlen ⊢
      have hshort := length_lt_of_body (hlen _ (List.mem_singleton_self _))
      have hagain := (hin d rfl).merged hr' _ rfl inner inner' hfills hfills'
      rw [hfirst hr'] at hagain
      obtain ⟨again, hagain, hsame⟩ := hagain hshort
      rw [hfinish hr', hfinish hr'] at hsame
      exact (steps_one_iff hg hr').mpr ⟨hrange, inner', ⟨d, _, rfl, rfl, hshort, hsame ▸ hagain⟩,
        by rw [hfinish hr']⟩

end Nested

section Skipped

/-- A typed reader gets past the records of a field that it does not know, and keeps none. -/
theorem steps_unknown_iff (hB : B.field? u n = none) (hn : ∀ r ∈ rs, r.1 = n) :
    Steps (readField B .typed depth u) m rs k ↔
      k = m ∧ ∀ r ∈ rs, InRange r.1 ∧ r.2.Fits true depth := by
  constructor
  · intro h
    induction h with
    | nil => exact ⟨rfl, by simp⟩
    | @cons _ _ _ number p rs hrange h _ ih =>
      obtain rfl : number = n := hn (number, p) (by simp)
      obtain ⟨rfl, hrs⟩ := ih fun r hr => hn r (List.mem_cons_of_mem _ hr)
      cases readField_takes_iff.mp h with
      | known hf _ =>
        rw [hB] at hf
        cases hf
      | unknown _ hread =>
        exact ⟨if_pos (by simp), List.forall_mem_cons.mpr ⟨⟨hrange, (read_inv (hread [])).1⟩, hrs⟩⟩
  · rintro ⟨rfl, hrs⟩
    induction rs with
    | nil => exact .nil _
    | cons r rs ih =>
      obtain ⟨number, p⟩ := r
      obtain rfl : number = n := hn (number, p) (by simp)
      obtain ⟨⟨hrange, hfits⟩, hrs⟩ := List.forall_mem_cons.mp hrs
      have hread : Reads B .typed depth (nestedAt B .typed depth) u k number p.wireType
          (p.body number) _ := .unknown hB (read_takes hrange hfits)
      rw [if_pos (by simp)] at hread
      exact .cons hrange (readField_takes_iff.mpr hread)
        (ih (fun r hr => hn r (List.mem_cons_of_mem _ hr)) hrs)

/-- What a typed reader does not know it gets past again when it was written again. -/
theorem steps_skipped (hS : S.Regular) (ht : t ∈ S.messages) (hB : B.field? u n = none)
    (hm : Steps (readField S .lossless d t) [] rs m)
    (hk : Steps (readField B .typed depth u) [] (rs.filter fun r => r.1 = n) k)
    (hlen : ∀ r ∈ Value.recordsOf (m.only n), (r.2.body r.1).length < 2 ^ 64) :
    Steps (readField B .typed depth u) [] (Value.recordsOf (m.only n)) k := by
  have hof : ∀ r ∈ rs.filter fun r => r.1 = n, r.1 = n := fun r hr => by
    simpa using (List.mem_filter.mp hr).2
  obtain ⟨rfl, hrs⟩ := (steps_unknown_iff hB hof).mp hk
  have hnests : NestsAt depth n m := nestsAt_of_steps hS ht hm
    (fun r hr hn => (hrs r (List.mem_filter.mpr ⟨hr, by simpa using hn⟩)).imp_right nests_of_fits)
    .nil nestsAt_nil
  exact (steps_unknown_iff hB fun r hr => (Value.mem_recordsOf_only.mp hr).2).mpr
    ⟨rfl, fun r hr => (nestsAt_iff.mp hnests r hr).imp_right fun h => fits_of_nests h (hlen r hr)⟩

end Skipped

/-- What is read under each number is read altogether. -/
theorem steps_of_only (hc : ∀ n, Calm B u n) (hk : Made B u k)
    (h : ∀ n, Steps (readField B reading depth u) [] (Value.recordsOf (m.only n)) (k.only n)) :
    Steps (readField B reading depth u) [] (Value.recordsOf m) k := by
  obtain ⟨k', hk'⟩ := exists_steps_message hc fun n => ⟨_, h n⟩
  have hsame : k' = k := Sorted.ext (Steps.made hk' .nil).sorted hk.sorted fun n =>
    (steps_message_only (hc n) hk').unique (h n)
  exact hsame ▸ hk'

/-- Of the types that `C` relates, one schema declares what the other one declares, too, in the same
way, and a reader by the other schema finds again what the one alone declares. What `W` tells of the
bytes of a message, it tells of the messages in it. -/
structure Rewrites (S B : Schema) (reading : Reading) (C : MessageType → MessageType → Prop)
    (W : Nat → MessageType → MessageType → Bytes → Prop) : Prop where
  left : ∀ {t u}, C t u → t ∈ S.messages ∧ t.mapEntry = false
  right : ∀ {t u}, C t u → u ∈ B.messages ∧ ∀ n, Calm B u n
  groupless : ∀ {t u f g n}, C t u → S.field? t n = some f → B.field? u n = some g →
    ∀ type, g.kind ≠ .group type
  same : ∀ {t u f g n}, C t u → S.field? t n = some f → B.field? u n = some g →
    f.Same g ∧ g.map = false ∧ (g.repeated = true → g.presence = false)
  inner : ∀ {t u f g n w v}, C t u → Holds S t n f w → Holds B u n g v →
    C w v ∧ (g.repeated = false → ∀ m, finish B reading v m = m)
  within : ∀ {d t u b rs f g n w v}, C t u → W (d + 1) t u b → Parsed (d + 1) b rs →
    Holds S t n f w → Holds B u n g v → Contents (W d w v) g n (rs.filter fun r => r.1 = n)
  skipped : ∀ {depth t u b rs m k f n}, C t u → W depth t u b → Parsed depth b rs →
    S.field? t n = some f → B.field? u n = none →
      Steps (readField S .lossless depth t) [] rs m →
        Steps (readField B reading depth u) [] (rs.filter fun r => r.1 = n) k →
          (∀ r ∈ Value.recordsOf (m.only n), (r.2.body r.1).length < 2 ^ 64) →
            Steps (readField B reading depth u) [] (Value.recordsOf (m.only n)) k

/-- Messages of a type that the schema does not have cannot be read. -/
theorem eq_nil_of_unresolved {type : String} (hf : S.field? t n = some f)
    (hk : f.kind = .message type) (hu : S.messageOf? f = none) (hn : ∀ r ∈ rs, r.1 = n)
    (h : Steps (readField S reading depth t) k rs m) : rs = [] := by
  cases h with
  | nil => rfl
  | @cons _ _ _ number p rs _ h _ =>
    obtain rfl : number = n := hn (number, p) (by simp)
    cases readField_takes_iff.mp h with
    | unknown hnone _ =>
      rw [hf] at hnone
      cases hnone
    | known hf' h =>
      obtain rfl := Option.some.inj (hf.symm.trans hf')
      generalize p.wireType = w at h
      generalize p.body number = x at h
      cases h with
      | single hs => exact absurd hk (hs.2 type)
      | more hs => exact absurd hk (hs.2 type)
      | packed hs => exact absurd hk (hs.2 type)
      | nested hu' =>
        rw [hu] at hu'
        cases hu'

section Rewrites

variable {C : MessageType → MessageType → Prop} {W : Nat → MessageType → MessageType → Bytes → Prop}

/-- Where both schemas have a field for a number, what the one read and wrote again of it the other
one reads as before. -/
theorem Rewrites.steps_shared (hR : Rewrites S B reading C W)
    (hS : S.Regular) (hc : C t u) (hf : S.field? t n = some f) (hg : B.field? u n = some g)
    (hin : ∀ d, depth = d + 1 → ∀ w v, Holds S t n f w → Holds B u n g v →
      Contents (Rereads S B .lossless reading d w v) g n rs)
    (hn : ∀ r ∈ rs, r.1 = n) (hm : Steps (readField S .lossless depth t) [] rs m)
    (hk : Steps (readField B reading depth u) [] rs k) (hshaped : Shaped S t m)
    (hlen : ∀ r ∈ Value.recordsOf m, (r.2.body r.1).length < 2 ^ 64) :
    Steps (readField B reading depth u) [] (Value.recordsOf m) k := by
  obtain ⟨ht, -⟩ := hR.left hc
  obtain ⟨hsame, hmap, hp⟩ := hR.same hc hf hg
  have hnone : rs = [] → Steps (readField B reading depth u) [] (Value.recordsOf m) k := by
    rintro rfl
    cases hm
    exact hk
  rcases f.kind.single_or_nested with hsingle | ⟨type, hkind | hkind⟩
  · have hpf : Plain S t n f := ⟨hf, hsingle, hsame.map⟩
    exact steps_plain hS ht hpf ⟨hg, hsame.kind ▸ hsingle, hmap⟩ hsame hp hn hm hk hshaped hlen
  · have hkind' : g.kind = .message type := hsame.kind ▸ hkind
    cases hw : S.messageOf? f with
    | none => exact hnone (eq_nil_of_unresolved hf hkind hw hn hm)
    | some w =>
      cases hv : B.messageOf? g with
      | none => exact hnone (eq_nil_of_unresolved hg hkind' hv hn hk)
      | some v =>
        have hhf : Holds S t n f w := ⟨hf, ⟨type, hkind⟩, hw, hsame.map⟩
        have hhg : Holds B u n g v := ⟨hg, ⟨type, hkind'⟩, hv, hmap⟩
        exact steps_messages hS ht hhf hhg hsame hp (fun _ _ => rfl) (hR.inner hc hhf hhg).2
          (fun d hd => hin d hd w v hhf hhg) hn hm hk hlen
  · exact absurd (hsame.kind ▸ hkind) (hR.groupless hc hf hg type)

/-- What one schema read and wrote again, another one reads as it would have before. -/
theorem Rewrites.rereads (hR : Rewrites S B reading C W) (hS : S.Regular) (hB : B.Regular)
    (hc : C t u) {b : Bytes} (hw : W depth t u b)
    (hm : Fills S .lossless depth t [] b m) (hk : Fills B reading depth u [] b k)
    (hlen : (Value.encodeSlots m).length < 2 ^ 64) :
    Fills B reading depth u [] (Value.encodeSlots m) k := by
  induction depth using Nat.strong_induction_on generalizing t u b m k with
  | _ depth ih =>
    obtain ⟨ht, hentry⟩ := hR.left hc
    obtain ⟨hu, hcalm⟩ := hR.right hc
    obtain ⟨rs, hparsed, hsteps⟩ := hm.exists_records hS ht
    obtain ⟨rs', hparsed', hsteps'⟩ := hk.exists_records hB hu
    obtain rfl := hparsed.unique hparsed'
    have hshaped : Shaped S t m := hm.shaped hS (fun h => by cases h) ht .nil
    refine (fills_encode_iff hS ht hshaped.typed).mpr
      (steps_of_only hcalm (Steps.made hsteps' .nil) fun n => ?_)
    have hkn := Steps.only hsteps' .nil (hcalm n)
    rw [only_nil] at hkn
    have hn : ∀ r ∈ rs.filter (fun r => r.1 = n), r.1 = n := fun r hr => by
      simpa using (List.mem_filter.mp hr).2
    have hlenn : ∀ r ∈ Value.recordsOf (m.only n), (r.2.body r.1).length < 2 ^ 64 := fun r hr =>
      Nat.lt_of_le_of_lt (length_only_le hS ht hshaped hr) hlen
    cases hf : S.field? t n with
    | none =>
      have hmn := Steps.only hsteps .nil (fun f hf' => by rw [hf] at hf'; cases hf')
      rw [only_nil] at hmn
      have := recordsOf_of_undeclared hf hentry hn (by simp) hmn
      rw [this, Value.recordsOf, List.nil_append]
      exact hkn
    | some f =>
      cases hg : B.field? u n with
      | none =>
        exact hR.skipped hc hw hparsed hf hg hsteps hkn hlenn
      | some g =>
        have ho := (hR.same hc hf hg).1.oneof
        have hmn := Steps.only hsteps .nil fun f' hf' => by
          rwa [← Option.some.inj (hf.symm.trans hf')]
        rw [only_nil] at hmn
        refine hR.steps_shared hS hc hf hg (fun d hd w v hhf hhg => ?_) hn hmn hkn
          (hshaped.sublist List.filter_sublist) hlenn
        subst hd
        refine (hR.within hc hw hparsed hhf hhg).imp fun b hb m k hm hk hlen => ?_
        exact ⟨k, ih d (by omega) (hR.inner hc hhf hhg).1 hb hm hk hlen, rfl⟩

end Rewrites

end DescriptorKit.Message
