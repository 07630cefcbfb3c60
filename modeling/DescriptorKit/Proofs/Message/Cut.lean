import DescriptorKit.Proofs.Message.Numbers

/-!
Where the records of a message begin and end. A split cuts groups open, a reader does not, so the
two cut some bytes alike unless a group holds records of the number that is looked for.
-/
namespace DescriptorKit
open Wire Payload

namespace Message

/-- The records that a reader takes from some bytes, each with its number and all of its bytes. -/
inductive Cut (step : Message → Nat → WireType → Cursor → Except Failure (Message × Cursor)) :
    Message → Bytes → List (Nat × Bytes) → Message → Prop where
  | nil (m : Message) : Cut step m [] [] m
  | cons {m₀ m₁ m : Message} {k x b : Bytes} {n : Nat} {w : WireType} {cs : List (Nat × Bytes)}
      (hk : Takes Cursor.key k (n, w)) (h : Takes (step m₀ n w) x m₁) (hs : Cut step m₁ b cs m) :
      Cut step m₀ (k ++ x ++ b) ((n, k ++ x) :: cs) m

section Cut

variable {step : Message → Nat → WireType → Cursor → Except Failure (Message × Cursor)}
  {m m' : Message} {b : Bytes} {cs : List (Nat × Bytes)}

theorem Cut.runs (h : Cut step m b cs m') : Runs (record step) m b m' := by
  induction h with
  | nil => exact .nil _
  | cons hk h _ ih => exact .cons (takes_record hk h) ih

theorem exists_cut (hl : ∀ m n w, Local (step m n w)) (h : Runs (record step) m b m') :
    ∃ cs, Cut step m b cs m' := by
  induction h with
  | nil => exact ⟨[], .nil _⟩
  | cons h _ ih =>
    obtain ⟨cs, hcs⟩ := ih
    obtain ⟨k, x, n, w, rfl, hk, hx⟩ := record_takes_inv hl h
    exact ⟨(n, k ++ x) :: cs, .cons hk hx hcs⟩

end Cut

/-- A message without the slots of a number. -/
def without (k : Nat) (m : Message) : Message := m.filter fun s => s.number ≠ k

section Without

variable {S : Schema} {reading : Reading} {depth n k : Nat} {t : MessageType} {m m' : Message}
  {s : Slot} {f : Field} {v : Value} {w : WireType} {b x : Bytes} {cs : List (Nat × Bytes)}
  {rs : List (Nat × Payload)} {p : Payload}

theorem mem_without_iff : s ∈ m.without k ↔ s ∈ m ∧ s.number ≠ k := by
  simp [without]

theorem Sorted.without (h : m.Sorted) (k : Nat) : (m.without k).Sorted :=
  h.sublist List.filter_sublist

theorem Made.without (h : Made S t m) (k : Nat) : Made S t (m.without k) :=
  ⟨h.sorted.without k, fun f v hf => h.declared f v (mem_without_iff.mp hf).1⟩

theorem only_without (k n : Nat) (m : Message) :
    (m.without k).only n = if n = k then [] else m.only n := by
  unfold without only
  rw [List.filter_filter]
  split
  · refine List.filter_eq_nil_iff.mpr fun s _ => ?_
    simp_all
  · refine List.filter_congr fun s _ => ?_
    by_cases hs : s.number = n <;> simp_all

theorem get?_without (hf : f.number ≠ k) (m : Message) : (m.without k).get? f = m.get? f := by
  rw [← get?_only rfl, only_without, if_neg hf, get?_only rfl]

theorem set_without (hm : Made S t m) (hc : ∀ n, Calm S t n) (hf : S.field? t f.number = some f)
    (hk : f.number ≠ k) (v : Value) : (m.set f v).without k = (m.without k).set f v := by
  refine Sorted.ext ((hm.sorted.set f v).without k) ((hm.sorted.without k).set f v) fun n => ?_
  have hrivals : ∀ {m : Message}, Made S t m → ∀ s ∈ m, s.number = n → s.rivals f = false :=
    fun hm s hs hn => hm.declared.not_rivals (hc n) hs hn f
  rw [only_without]
  by_cases hn : f.number = n
  · have hnk : n ≠ k := hn ▸ hk
    rw [if_neg hnk, only_set hm.sorted (hc _ f hf) hn,
      only_set (hm.without k).sorted (hc _ f hf) hn,
      only_without, if_neg hnk]
  · rw [only_set_ne hm.sorted (hrivals hm) hn,
      only_set_ne (hm.without k).sorted (hrivals (hm.without k)) hn, only_without]

theorem insert_without (hm : m.Sorted) (s : Slot) :
    (m.insert s).without k = if s.number = k then m.without k else (m.without k).insert s := by
  have hsorted : (if s.number = k then m.without k else (m.without k).insert s).Sorted := by
    split
    · exact hm.without k
    · exact (hm.without k).insert s
  refine Sorted.ext ((hm.insert s).without k) hsorted fun n => ?_
  rw [only_without, only_insert hm]
  by_cases hs : s.number = k
  · rw [if_pos hs, only_without]
    split
    · rfl
    · rw [if_neg (by omega)]
  · rw [if_neg hs, only_insert (hm.without k), only_without]
    by_cases hn : n = k
    · rw [if_pos hn, if_pos hn, if_neg (by omega)]
    · rw [if_neg hn, if_neg hn]

/-- A record does to the slots of other numbers what it would do in their absence. -/
theorem Reads.without (h : Reads S reading depth (nestedAt S reading depth) t m n w x m')
    (hm : Made S t m) (hc : ∀ n, Calm S t n) (hn : n ≠ k) :
    Reads S reading depth (nestedAt S reading depth) t (m.without k) n w x (m'.without k) := by
  cases h with
  | @known f _ hf h =>
    have hfn := Schema.field?_number hf
    obtain ⟨u, rfl, hset⟩ := h.exists_set
    rw [set_without hm hc (hfn ▸ hf) (hfn ▸ hn)]
    exact .known hf (hset _ (get?_without (hfn ▸ hn) m))
  | @unknown p hf h =>
    have hread : Reads S reading depth (nestedAt S reading depth) t (m.without k) n w x _ :=
      .unknown hf h
    split
    · rename_i hd
      rwa [if_pos hd] at hread
    · rename_i hd
      rw [if_neg hd] at hread
      rwa [insert_without hm.sorted, if_neg (show (Slot.unknown n p).number ≠ k from hn)]

/-- A record of an undeclared number adds at most a slot of that number. -/
theorem Reads.without_self (h : Reads S reading depth (nestedAt S reading depth) t m k w x m')
    (hm : Made S t m) (hk : S.field? t k = none) : m'.without k = m.without k := by
  cases h with
  | known hf _ =>
    rw [hk] at hf
    cases hf
  | @unknown p _ _ =>
    split
    · rfl
    · rw [insert_without hm.sorted, if_pos (show (Slot.unknown k p).number = k from rfl)]

/-- Without the records of an undeclared number, a reader makes of bytes what it made of them but
for the slots of that number. -/
theorem Cut.without (h : Cut (readField S reading depth t) m b cs m') (hm : Made S t m)
    (hc : ∀ n, Calm S t n) (hk : S.field? t k = none) :
    Cut (readField S reading depth t) (m.without k) (Records.glued (cs.filter (·.1 ≠ k)))
      (cs.filter (·.1 ≠ k)) (m'.without k) := by
  induction h with
  | nil => exact .nil _
  | @cons m₀ m₁ m key x b n w cs hkey h _ ih =>
    have hread := readField_takes_iff.mp h
    have hcut := ih (hread.made hm)
    by_cases hn : n = k
    · subst hn
      rw [hread.without_self hm hk] at hcut
      simpa using hcut
    · have hstep := readField_takes_iff.mpr (hread.without hm hc hn)
      simpa [hn, Records.glued] using Cut.cons hkey hstep hcut

/-- A typed reader makes the same of records without those of a number that it does not know. -/
theorem Steps.without (h : Steps (readField S .typed depth t) m rs m') (hk : S.field? t k = none) :
    Steps (readField S .typed depth t) m (rs.filter (·.1 ≠ k)) m' := by
  induction h with
  | nil => exact .nil _
  | @cons a b c n p rs hn h _ ih =>
    by_cases hnk : n = k
    · subst hnk
      cases readField_takes_iff.mp h with
      | known hf _ =>
        rw [hk] at hf
        cases hf
      | unknown _ _ => simpa using ih
    · simpa [hnk] using Steps.cons hn h ih

theorem recordsOf_without (k : Nat) (m : Message) :
    Value.recordsOf (m.without k) = (Value.recordsOf m).filter (·.1 ≠ k) := by
  induction m with
  | nil => rfl
  | cons s m ih =>
    rw [Value.recordsOf, List.filter_append, ← ih]
    have hnumber : ∀ r ∈ Value.slotRecords s, r.1 = s.number :=
      fun r hr => Value.number_of_mem_slotRecords hr
    by_cases hs : s.number = k
    · have hnone : (Value.slotRecords s).filter (·.1 ≠ k) = [] :=
        List.filter_eq_nil_iff.mpr fun r hr => by simp [hnumber r hr, hs]
      rw [hnone, without, List.filter_cons_of_neg (by simpa using hs), List.nil_append, without]
    · have hall : (Value.slotRecords s).filter (·.1 ≠ k) = Value.slotRecords s :=
        List.filter_eq_self.mpr fun r hr => by simp [hnumber r hr, hs]
      rw [hall, without, List.filter_cons_of_pos (by simpa using hs), Value.recordsOf, without]

theorem Typed.without (h : Typed S t m) (k : Nat) : Typed S t (m.without k) := by
  induction m with
  | nil => exact h
  | cons s m ih =>
    rw [Typed] at h
    unfold Message.without
    rw [List.filter_cons]
    split
    · rw [Typed]
      exact ⟨h.1, ih h.2⟩
    · exact ih h.2

theorem unknown_mem_set (h : Slot.unknown n p ∈ m) (f : Field) (v : Value) :
    Slot.unknown n p ∈ m.set f v := by
  have hfilter : Slot.unknown n p ∈ m.filter fun s => !s.rivals f :=
    List.mem_filter.mpr ⟨h, rfl⟩
  have hreplace : ∀ m : Message, Slot.unknown n p ∈ m → Slot.unknown n p ∈ m.replace f v := by
    intro m hm
    induction m with
    | nil => cases hm
    | cons s m ih =>
      cases s with
      | known g u =>
        rw [replace]
        have hm' := (List.mem_cons.mp hm).resolve_left (by simp)
        split
        · exact List.mem_cons_of_mem _ hm'
        · exact List.mem_cons_of_mem _ (ih hm')
      | unknown j q =>
        rw [replace]
        rcases List.mem_cons.mp hm with he | hm
        · exact he ▸ List.mem_cons_self
        · exact List.mem_cons_of_mem _ (ih hm)
  unfold set
  dsimp only
  split
  · exact List.mem_filter.mpr ⟨hfilter, rfl⟩
  · split
    · exact hreplace _ hfilter
    · exact mem_insert_iff.mpr (Or.inr hfilter)

/-- A lossless reader keeps the records that it does not know. -/
theorem Steps.unknown_mem (h : Steps (readField S .lossless depth t) m rs m')
    (hentry : t.mapEntry = false) (hn : S.field? t n = none)
    (hp : (n, p) ∈ rs ∨ Slot.unknown n p ∈ m) : Slot.unknown n p ∈ m' := by
  induction h with
  | nil => exact hp.resolve_left (by simp)
  | @cons a b c number q rs _ h _ ih =>
    refine ih ?_
    cases readField_takes_iff.mp h with
    | @known f _ hf h =>
      obtain ⟨u, rfl, -⟩ := h.exists_set
      rcases hp with hp | hp
      · rcases List.mem_cons.mp hp with he | hp
        · obtain ⟨rfl, -⟩ := Prod.mk.inj he
          rw [hn] at hf
          cases hf
        · exact Or.inl hp
      · exact Or.inr (unknown_mem_set hp f u)
    | @unknown q' hf hread =>
      obtain ⟨-, rfl, -⟩ := read_inv (hread [])
      rw [if_neg (by simp [hentry])]
      rcases hp with hp | hp
      · rcases List.mem_cons.mp hp with he | hp
        · obtain ⟨rfl, rfl⟩ := Prod.mk.inj he
          exact Or.inr (mem_insert_iff.mpr (Or.inl rfl))
        · exact Or.inl hp
      · exact Or.inr (mem_insert_iff.mpr (Or.inr hp))

theorem Accepts.wireType_ne {nested : Nested} (h : Accepts S reading nested f m w x m')
    (hf : ∀ type, f.kind ≠ .group type) : w ≠ .startGroup := by
  have hkind : f.kind.wireType ≠ .startGroup := by
    intro hw
    cases hk : f.kind with
    | group type => exact hf type hk
    | scalar s =>
      rw [hk] at hw
      cases s <;> cases hw
    | _ =>
      rw [hk] at hw
      cases hw
  cases h with
  | packed => simp
  | _ => exact hkind

/-- A declared field that is no group is read from no group. -/
theorem Steps.wireType_ne (h : Steps (readField S reading depth t) m rs m')
    (hgroup : ∀ f n, S.field? t n = some f → ∀ type, f.kind ≠ .group type)
    (hp : (n, p) ∈ rs) (hf : S.field? t n = some f) : p.wireType ≠ .startGroup := by
  induction h with
  | nil => cases hp
  | @cons a b c number q rs _ h _ ih =>
    rcases List.mem_cons.mp hp with he | hp
    · obtain ⟨rfl, rfl⟩ := Prod.mk.inj he
      cases readField_takes_iff.mp h with
      | known hg h => exact h.wireType_ne (hgroup _ n hg)
      | unknown hg _ =>
        rw [hf] at hg
        cases hg
    · exact ih hp

end Without

end Message

namespace Wire.Records

variable {k n depth : Nat} {ps : List (Nat × Bytes)}

/-- A record, and the pieces that a split cuts it into. -/
structure Part where
  number : Nat
  payload : Payload
  pieces : List (Nat × Bytes)
  is_piece : ∀ p ∈ pieces, Piece p.1 p.2
  numbers : pieces.map (·.1) = Payload.numbers number payload

namespace Part

/-- The record with its payload. -/
def read (q : Part) : Nat × Payload := (q.number, q.payload)

/-- The record with its bytes. -/
def cut (q : Part) : Nat × Bytes := (q.number, glued q.pieces)

/-- A split that looks for the number leaves the record in one piece with all others of its
number. -/
def Whole (k : Nat) (q : Part) : Prop :=
  ∀ j ∈ Payload.numbers q.number q.payload, j = k ↔ q.number = k

variable {q : Part} {qs : List Part}

theorem whole_iff : q.Whole k ↔ ∀ p ∈ q.pieces, p.1 = k ↔ q.number = k := by
  rw [Whole, ← q.numbers, List.forall_mem_map]

theorem glued_pieces (qs : List Part) : glued (qs.flatMap pieces) = glued (qs.map cut) := by
  induction qs with
  | nil => rfl
  | cons q qs ih =>
    rw [List.flatMap_cons, glued_append, ih]
    rfl

theorem glued_filter (k : Nat) (b : Bool) (qs : List Part) :
    glued ((qs.map cut).filter fun c => decide (c.1 = k) = b) =
      glued ((qs.filter fun q => decide (q.number = k) = b).flatMap pieces) := by
  rw [List.filter_map, glued_pieces]
  rfl

/-- Where every record stays whole, a split sorts out records. -/
theorem filter_of_whole (h : ∀ q ∈ qs, q.Whole k) (b : Bool) :
    ((qs.flatMap pieces).filter fun p => decide (p.1 = k) = b) =
      (qs.filter fun q => decide (q.number = k) = b).flatMap pieces := by
  induction qs with
  | nil => rfl
  | cons q qs ih =>
    obtain ⟨hq, hqs⟩ := List.forall_mem_cons.mp h
    rw [List.flatMap_cons, List.filter_append, ih hqs, List.filter_cons]
    have hsame : ∀ p ∈ q.pieces, decide (p.1 = k) = decide (q.number = k) :=
      fun p hp => decide_eq_decide.mpr (whole_iff.mp hq p hp)
    by_cases hb : decide (q.number = k) = b
    · have hall : (q.pieces.filter fun p => decide (p.1 = k) = b) = q.pieces :=
        List.filter_eq_self.mpr fun p hp => by simpa [hsame p hp] using hb
      rw [hall, if_pos (by simpa using hb), List.flatMap_cons]
    · have hnone : (q.pieces.filter fun p => decide (p.1 = k) = b) = [] :=
        List.filter_eq_nil_iff.mpr fun p hp => by simpa [hsame p hp] using hb
      rw [hnone, if_neg (by simpa using hb), List.nil_append]

theorem filter_eq_self (h : ∀ p ∈ q.pieces, p.1 = k) :
    (q.pieces.filter fun p => decide (p.1 = k)) = q.pieces :=
  List.filter_eq_self.mpr fun p hp => by simpa using h p hp

theorem sublist_filter (hk : ∀ q ∈ qs, q.number = k → ∀ p ∈ q.pieces, p.1 = k) :
    ((qs.filter fun q => decide (q.number = k)).flatMap pieces).Sublist
      ((qs.flatMap pieces).filter fun p => decide (p.1 = k)) := by
  induction qs with
  | nil => exact List.Sublist.refl _
  | cons q qs ih =>
    obtain ⟨hq, hqs⟩ := List.forall_mem_cons.mp hk
    rw [List.flatMap_cons, List.filter_append, List.filter_cons]
    split
    · rename_i hn
      rw [filter_eq_self (hq (by simpa using hn)), List.flatMap_cons]
      exact (List.Sublist.refl _).append (ih hqs)
    · exact (ih hqs).trans (List.sublist_append_right _ _)

/-- Where a split sorts out no more pieces than the records of the number have, and those are all of
the number, there is no piece of the number in other records. -/
theorem whole_of_filter (hk : ∀ q ∈ qs, q.number = k → ∀ p ∈ q.pieces, p.1 = k)
    (h : ((qs.flatMap pieces).filter fun p => decide (p.1 = k)) =
      (qs.filter fun q => decide (q.number = k)).flatMap pieces) : ∀ q ∈ qs, q.Whole k := by
  induction qs with
  | nil => simp
  | cons q qs ih =>
    obtain ⟨hq, hqs⟩ := List.forall_mem_cons.mp hk
    rw [List.flatMap_cons, List.filter_append, List.filter_cons] at h
    by_cases hn : q.number = k
    · rw [filter_eq_self (hq hn), if_pos (by simpa using hn), List.flatMap_cons] at h
      exact List.forall_mem_cons.mpr
        ⟨whole_iff.mpr fun p hp => by simp [hn, hq hn p hp], ih hqs (List.append_cancel_left h)⟩
    · rw [if_neg (by simpa using hn)] at h
      have hlength := congrArg List.length h
      have hsub := (sublist_filter hqs).length_le
      rw [List.length_append] at hlength
      have hnone := List.eq_nil_of_length_eq_zero
        (show (q.pieces.filter fun p => decide (p.1 = k)).length = 0 by omega)
      rw [hnone, List.nil_append] at h
      refine List.forall_mem_cons.mpr ⟨whole_iff.mpr fun p hp => ?_, ih hqs h⟩
      simpa [hn] using List.filter_eq_nil_iff.mp hnone p hp

/-- A split sorts out the records of the number just where every record stays whole. -/
theorem extracted_eq_iff : glued ((qs.flatMap pieces).filter (·.1 = k)) =
    glued ((qs.map cut).filter (·.1 = k)) ↔ ∀ q ∈ qs, q.Whole k := by
  have hfilter : glued ((qs.map cut).filter (·.1 = k)) =
      glued ((qs.filter fun q => decide (q.number = k)).flatMap pieces) := by
    simpa using glued_filter k true qs
  rw [hfilter]
  constructor
  · intro h
    have hpieces : ∀ p ∈ qs.flatMap pieces, Piece p.1 p.2 := by
      intro p hp
      obtain ⟨q, -, hp⟩ := List.mem_flatMap.mp hp
      exact q.is_piece p hp
    have hleft : Pieces _ ((qs.flatMap pieces).filter (·.1 = k)) :=
      pieces_glued fun p hp => hpieces p (List.mem_filter.mp hp).1
    have hright : Pieces _ ((qs.filter fun q => decide (q.number = k)).flatMap pieces) :=
      pieces_glued fun p hp => by
        obtain ⟨q, hq, hp⟩ := List.mem_flatMap.mp hp
        exact hpieces p (List.mem_flatMap.mpr ⟨q, (List.mem_filter.mp hq).1, hp⟩)
    rw [h] at hleft
    -- the same bytes have the same pieces
    have hsame := hleft.unique hright
    refine whole_of_filter (fun q hq hn p hp => ?_) hsame
    have hmem : p ∈ (qs.filter fun q => decide (q.number = k)).flatMap pieces :=
      List.mem_flatMap.mpr ⟨q, List.mem_filter.mpr ⟨hq, by simpa using hn⟩, hp⟩
    rw [← hsame] at hmem
    simpa using (List.mem_filter.mp hmem).2
  · intro h
    have hwhole := filter_of_whole h true
    simp only [decide_eq_true_eq] at hwhole
    rw [hwhole]

theorem rest_eq (h : ∀ q ∈ qs, q.Whole k) : glued ((qs.flatMap pieces).filter (·.1 ≠ k)) =
    glued ((qs.map cut).filter (·.1 ≠ k)) := by
  have hwhole := filter_of_whole h false
  have hfilter := glued_filter k false qs
  simp only [decide_eq_false_iff_not] at hwhole hfilter
  rw [hwhole, hfilter]

end Part

end Wire.Records

namespace Message

open Wire.Records

variable {S : Schema} {reading : Reading} {depth : Nat} {t : MessageType} {m m' : Message}
  {b : Bytes}
  {cs : List (Nat × Bytes)}

/-- What a reader cuts out, a split may cut on. -/
theorem Cut.exists_parts (hS : S.Regular) (ht : t ∈ S.messages)
    (h : Cut (readField S reading depth t) m b cs m') (hlen : b.length < 2 ^ 64) :
    ∃ qs : List Part, cs = qs.map Part.cut ∧ b = glued cs ∧
      Steps (readField S reading depth t) m (qs.map Part.read) m' := by
  induction h with
  | nil => exact ⟨[], rfl, rfl, .nil _⟩
  | @cons m₀ m₁ m key x b n w cs hk h _ ih =>
    rw [List.length_append] at hlen
    obtain ⟨p, rfl, hread, hbody⟩ := exists_payload hS ht (inRange_of_key hk) h
    obtain ⟨ps, hps, hnumbers⟩ := exists_pieces_of_read hk hread (by omega)
    obtain ⟨qs, rfl, rfl, hsteps⟩ := ih (by omega)
    refine ⟨⟨n, p, ps, hps.of_mem, hnumbers⟩ :: qs, ?_, rfl, .cons (inRange_of_key hk) hbody hsteps⟩
    rw [List.map_cons, Part.cut, hps.glued_eq]

end Message
end DescriptorKit
