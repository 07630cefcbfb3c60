import DescriptorKit.Proofs.Wire.Repeat

/-!
Records of undeclared fields. A record that was written is read up to its end and gives its payload
again, and a reader that gets past such a record at all has stopped right behind it.
-/
namespace DescriptorKit.Wire

/-- The numbers that a key has room for. -/
def InRange (number : Nat) : Prop := 0 < number ∧ number < 2 ^ 29

namespace Payload

variable {α : Type} {strict : Bool} {depth number fuel : Nat} {p q : Payload} {x y b : Bytes}
  {c : Cursor} {rs : List (Nat × Payload)} {a a' : α}

def wireType : Payload → WireType
  | .varint _ => .varint
  | .fixed64 _ => .fixed64
  | .delimited _ => .delimited
  | .group _ => .startGroup
  | .fixed32 _ => .fixed32

/-- What follows the key of a record. A group repeats the number of its field at its end. -/
def body (number : Nat) : Payload → Bytes
  | .varint v => Varint.encode v.toNat
  | .fixed64 v => Bytes.littleEndian 8 v.toNat
  | .delimited b => encodeDelimited b
  | .group records => encodeAll records ++ encodeKey number .endGroup
  | .fixed32 v => Bytes.littleEndian 4 v.toNat

theorem encode_eq (number : Nat) (p : Payload) :
    p.encode number = encodeKey number p.wireType ++ p.body number := by
  cases p <;> simp [encode, wireType, body]

theorem wireType_ne (p : Payload) : p.wireType ≠ .endGroup := by
  cases p <;> simp [wireType]

theorem encodeAll_append (rs ss : List (Nat × Payload)) :
    encodeAll (rs ++ ss) = encodeAll rs ++ encodeAll ss := by
  induction rs with
  | nil => rfl
  | cons r rs ih =>
    obtain ⟨n, p⟩ := r
    simp [encodeAll, ih]

theorem length_body_le (h : (number, p) ∈ rs) : (p.body number).length ≤ (encodeAll rs).length := by
  induction rs with
  | nil => cases h
  | cons r rs ih =>
    rw [encodeAll, List.length_append]
    rcases List.mem_cons.mp h with rfl | h
    · rw [encode_eq, List.length_append]
      dsimp only
      omega
    · have := ih h
      omega

section Step

variable {step : α → Nat → WireType → Cursor → Except Failure (α × Cursor)}

/-- A step that gets past the payload stops right behind it. -/
def Ends (step : α → Nat → WireType → Cursor → Except Failure (α × Cursor)) (p : Payload) : Prop :=
  ∀ a number y a' c, step a number p.wireType (.ofBytes (p.body number ++ y)) = .ok (a', c) →
    c = .ofBytes y

/-- One step for each record, just as far as the record goes. -/
inductive Steps (step : α → Nat → WireType → Cursor → Except Failure (α × Cursor)) :
    α → List (Nat × Payload) → α → Prop where
  | nil (a : α) : Steps step a [] a
  | cons {a b c : α} {number : Nat} {p : Payload} {rs : List (Nat × Payload)}
      (hn : InRange number) (h : Takes (step a number p.wireType) (p.body number) b)
      (hs : Steps step b rs c) : Steps step a ((number, p) :: rs) c

theorem Steps.append {a'' : α} {ss : List (Nat × Payload)} (h : Steps step a rs a')
    (hs : Steps step a' ss a'') : Steps step a (rs ++ ss) a'' := by
  induction h with
  | nil => exact hs
  | cons hn h _ ih => exact .cons hn h (ih hs)

theorem steps_append_iff {a'' : α} {ss : List (Nat × Payload)} :
    Steps step a (rs ++ ss) a'' ↔ ∃ a', Steps step a rs a' ∧ Steps step a' ss a'' := by
  refine ⟨fun h => ?_, fun ⟨_, h, hs⟩ => h.append hs⟩
  induction rs generalizing a with
  | nil => exact ⟨a, .nil a, h⟩
  | cons r rs ih =>
    cases h with
    | cons hn h hs =>
      obtain ⟨a', hrs, hss⟩ := ih hs
      exact ⟨a', .cons hn h hrs, hss⟩

theorem Steps.unique {a'' : α} (h : Steps step a rs a') (h' : Steps step a rs a'') :
    a' = a'' := by
  induction h with
  | nil =>
    cases h'
    rfl
  | cons _ h _ ih =>
    cases h' with
    | cons _ k hs =>
      obtain ⟨-, rfl, -⟩ := h.unique k (show _ ++ [] = _ ++ [] from rfl)
      exact ih hs

theorem group_of_steps (hn : InRange number) (h : Steps step a rs a') :
    Cursor.Group number step a (encodeAll rs ++ encodeKey number .endGroup) a' := by
  induction h with
  | nil a => exact .stop (Cursor.key_encode hn.1 hn.2)
  | @cons a b c n p rs hr h hs ih =>
    rw [encodeAll, encode_eq, List.append_assoc, List.append_assoc]
    exact .cons (Cursor.key_encode hr.1 hr.2) (wireType_ne p) h ih

theorem steps_of_repeatGroup (hl : ∀ a n w, Local (step a n w))
    (he : ∀ r ∈ rs, Ends step r.2)
    (h : Cursor.repeatGroup number step fuel a
      (.ofBytes (encodeAll rs ++ (encodeKey number .endGroup ++ y))) = .ok (a', c)) :
    InRange number ∧ c = .ofBytes y ∧ Steps step a rs a' := by
  induction rs generalizing fuel a with
  | nil =>
    cases fuel with
    | zero => cases h
    | succ fuel =>
      rw [encodeAll, List.nil_append] at h
      cases hk : Cursor.key (.ofBytes (encodeKey number .endGroup ++ y)) with
      | error f =>
        rw [Cursor.repeatGroup, Cursor.readKey_of_error hk] at h
        cases h
      | ok r =>
        obtain ⟨h₀, h₁, hk', hc⟩ := Cursor.key_encode_inv (k := r.1) (c := r.2) hk
        rw [Cursor.repeatGroup_stop hk (by rw [hk']), hk', if_pos rfl] at h
        obtain ⟨rfl, rfl⟩ := Prod.mk.inj (Except.ok.inj h)
        exact ⟨⟨h₀, h₁⟩, hc, .nil a⟩
  | cons r rs ih =>
    obtain ⟨n, p⟩ := r
    cases fuel with
    | zero => cases h
    | succ fuel =>
      rw [encodeAll, encode_eq, List.append_assoc, List.append_assoc] at h
      cases hk : Cursor.key (.ofBytes (encodeKey n p.wireType ++ (p.body n ++ (encodeAll rs ++
          (encodeKey number .endGroup ++ y))))) with
      | error f =>
        rw [Cursor.repeatGroup, Cursor.readKey_of_error hk] at h
        cases h
      | ok r =>
        obtain ⟨h₀, h₁, hk', hc⟩ := Cursor.key_encode_inv (k := r.1) (c := r.2) hk
        rw [Cursor.repeatGroup_step hk
          (by rw [hk']; exact wireType_ne p), hk', hc] at h
        dsimp only at h
        cases hs : step a n p.wireType (.ofBytes (p.body n ++ (encodeAll rs ++
            (encodeKey number .endGroup ++ y)))) with
        | error f =>
          rw [hs] at h
          cases h
        | ok s =>
          have hend := he (n, p) (by simp) a n _ s.1 s.2 hs
          have htake : Takes (step a n p.wireType) (p.body n) s.1 :=
            (hl a n p.wireType).takes (hs.trans (by rw [← hend]))
          rw [hs] at h
          dsimp only at h
          rw [hend] at h
          obtain ⟨hn, hc, hsteps⟩ := ih (fun r hr => he r (List.mem_cons_of_mem _ hr)) h
          exact ⟨hn, hc, .cons ⟨h₀, h₁⟩ htake hsteps⟩

end Step

/-- Payloads without groups. A length must fit into a varint. -/
def Flat : Payload → Prop
  | .group _ => False
  | .delimited b => b.length < 2 ^ 64
  | _ => True

theorem length_lt_of_body {b : Bytes} (h : ((delimited b).body number).length < 2 ^ 64) :
    b.length < 2 ^ 64 := by
  rw [body, encodeDelimited, List.length_append] at h
  omega

theorem flat_of_length (hp : p.wireType ≠ .startGroup) (h : (p.body number).length < 2 ^ 64) :
    p.Flat := by
  cases p with
  | delimited b => exact length_lt_of_body h
  | group rs => exact absurd rfl hp
  | _ => trivial

/-- Payloads that a reader reads whose groups nest at most `depth` deep. -/
def Fits (strict : Bool) : (depth : Nat) → Payload → Prop
  | 0, p => strict = false ∧ p.Flat
  | depth + 1, .group rs => ∀ r ∈ rs, InRange r.1 ∧ Fits strict depth r.2
  | _ + 1, p => p.Flat

theorem fits_succ_flat (h : p.Flat) : Fits strict (depth + 1) p := by
  cases p <;> first | exact h | exact h.elim

theorem flat_of_fits_succ (h : Fits strict (depth + 1) p) (hp : p.wireType ≠ .startGroup) :
    p.Flat := by
  cases p <;> first | exact h | exact absurd rfl hp

theorem ofLittleEndian_of_lt {w n : Nat} (h : n < 256 ^ w) :
    Bytes.ofLittleEndian (Bytes.littleEndian w n) = n := by
  rw [Bytes.ofLittleEndian_littleEndian]
  exact Nat.mod_eq_of_lt h

theorem readFlat_local (w : WireType) : Local (readFlat w) := by
  cases w
  · exact Cursor.readVarint_local.map fun n => Payload.varint n.toUInt64
  · exact (Cursor.take_local 8).map fun b => Payload.fixed64 (Bytes.ofLittleEndian b).toUInt64
  · exact Cursor.readDelimited_local.map fun b => Payload.delimited b
  · exact .error _
  · exact .error _
  · exact (Cursor.take_local 4).map fun b => Payload.fixed32 (Bytes.ofLittleEndian b).toUInt32

theorem readFlat_takes (h : p.Flat) : Takes (readFlat p.wireType) (p.body number) p := by
  intro y
  cases p with
  | varint v =>
    have hv : v.toNat < 2 ^ 64 := v.toNat_lt
    simp [readFlat, wireType, body, Cursor.readVarint_encode hv y, bind, Except.bind]
  | fixed64 v =>
    have hv : v.toNat < 256 ^ 8 := v.toNat_lt
    have ht := Cursor.take_takes (Bytes.length_littleEndian 8 v.toNat) y
    simp [readFlat, wireType, body, ht, ofLittleEndian_of_lt hv, bind, Except.bind]
  | delimited b =>
    simp [readFlat, wireType, body, Cursor.readDelimited_encode h y, bind, Except.bind]
  | group rs => exact h.elim
  | fixed32 v =>
    have hv : v.toNat < 256 ^ 4 := v.toNat_lt
    have ht := Cursor.take_takes (Bytes.length_littleEndian 4 v.toNat) y
    simp [readFlat, wireType, body, ht, ofLittleEndian_of_lt hv, bind, Except.bind]

theorem flat_of_readFlat (h : readFlat p.wireType (.ofBytes (p.body number ++ y)) = .ok (q, c)) :
    p.Flat := by
  cases p with
  | delimited b =>
    rw [wireType, body, readFlat] at h
    cases hr : Cursor.readDelimited (.ofBytes (encodeDelimited b ++ y)) with
    | error f =>
      rw [hr] at h
      cases h
    | ok r => exact (Cursor.readDelimited_encode_inv (p := r.1) (c := r.2) hr).1
  | group rs => cases h
  | varint v => trivial
  | fixed64 v => trivial
  | fixed32 v => trivial

theorem readInto_local {read : Nat → WireType → Cursor → Except Failure (Payload × Cursor)}
    (h : ∀ n w, Local (read n w)) (rs : List (Nat × Payload)) (n : Nat) (w : WireType) :
    Local (readInto read rs n w) := by
  intro b rs' c hr
  rw [readInto] at hr
  cases hb : read n w (.ofBytes b) with
  | error f =>
    rw [hb] at hr
    cases hr
  | ok r =>
    rw [hb] at hr
    obtain ⟨rfl, rfl⟩ := Prod.mk.inj (Except.ok.inj hr)
    obtain ⟨x, y, rfl, hy, hx⟩ := h n w b r.1 r.2 hb
    exact ⟨x, y, rfl, hy, fun z => by rw [readInto, hx]⟩

/-- Reads a group as a list of records. -/
def readRecords (read : Nat → WireType → Cursor → Except Failure (Payload × Cursor))
    (number : Nat) (c : Cursor) : Except Failure (List (Nat × Payload) × Cursor) :=
  c.repeatGroup number (readInto read) (c.size + 1) []

theorem read_zero (strict : Bool) (number : Nat) (w : WireType) (c : Cursor) :
    read strict 0 number w c = if strict || w = .startGroup then .error ⟨.tooDeep, []⟩
      else (readFlat w c).mapError fun f => ⟨f, []⟩ := by
  rw [read]
  cases readFlat w c <;> rfl

theorem read_group (strict : Bool) (depth number : Nat) (c : Cursor) :
    read strict (depth + 1) number .startGroup c =
      readRecords (read strict depth) number c >>= fun p => .ok (.group p.1.reverse, p.2) := by
  rw [read, if_pos rfl, readRecords]
  cases Cursor.repeatGroup number (readInto (read strict depth)) (c.size + 1) [] c with
  | error f => rfl
  | ok r => rfl

theorem read_flat (strict : Bool) (depth number : Nat) {w : WireType} (hw : w ≠ .startGroup)
    (c : Cursor) : read strict (depth + 1) number w c =
      (readFlat w c).mapError fun f => ⟨f, []⟩ := by
  rw [read, if_neg hw]
  cases readFlat w c <;> rfl

theorem read_local (strict : Bool) (depth number : Nat) (w : WireType) :
    Local (read strict depth number w) := by
  induction depth generalizing number w with
  | zero =>
    rw [funext (read_zero strict number w)]
    by_cases hw : strict || w = .startGroup
    · simp only [if_pos hw]
      exact .error _
    · simp only [if_neg hw]
      exact (readFlat_local w).mapError _
  | succ depth ih =>
    by_cases hw : w = .startGroup
    · subst hw
      rw [funext (read_group strict depth number)]
      exact (Cursor.repeatGroup_local (readInto_local ih) []).map fun rs => Payload.group rs.reverse
    · rw [funext (read_flat strict depth number hw)]
      exact (readFlat_local w).mapError _

theorem steps_of_fits (h : ∀ r ∈ rs, InRange r.1 ∧ Takes (read strict depth r.1 r.2.wireType)
    (r.2.body r.1) r.2) (acc : List (Nat × Payload)) :
    Steps (readInto (read strict depth)) acc rs (rs.reverse ++ acc) := by
  induction rs generalizing acc with
  | nil => exact .nil acc
  | cons r rs ih =>
    obtain ⟨n, p⟩ := r
    obtain ⟨hn, ht⟩ := h (n, p) (by simp)
    rw [List.reverse_cons, List.append_assoc, List.singleton_append]
    refine .cons hn (fun y => ?_) (ih (fun r hr => h r (List.mem_cons_of_mem _ hr)) _)
    rw [readInto, ht]

theorem read_takes (hn : InRange number) (h : Fits strict depth p) :
    Takes (read strict depth number p.wireType) (p.body number) p := by
  induction depth generalizing number p with
  | zero =>
    obtain ⟨rfl, hf⟩ := h
    have hw : p.wireType ≠ .startGroup := by
      cases p <;> first | exact hf.elim | simp [wireType]
    intro y
    rw [read_zero, if_neg (by simpa using hw), readFlat_takes hf]
    rfl
  | succ depth ih =>
    by_cases hw : p.wireType = .startGroup
    · cases p with
      | group rs =>
        have hs := steps_of_fits (fun r hr => ⟨(h r hr).1, ih (h r hr).1 (h r hr).2⟩) []
        intro y
        have ht := Cursor.repeatGroup_takes (group_of_steps hn hs) y
        rw [wireType, read_group, readRecords, body]
        dsimp only at ht
        rw [ht]
        simp [bind, Except.bind]
      | _ => cases hw
    · intro y
      rw [read_flat _ _ _ hw, readFlat_takes (flat_of_fits_succ h hw)]
      rfl

/-- A reader that gets past a record has read it as it is, and the record fits. -/
theorem read_inv (h : read strict depth number p.wireType (.ofBytes (p.body number ++ y)) =
    .ok (q, c)) : Fits strict depth p ∧ q = p ∧ c = .ofBytes y := by
  induction depth generalizing number p q y c with
  | zero =>
    rw [read_zero] at h
    split at h
    · cases h
    · rename_i hs
      simp only [Bool.or_eq_true, decide_eq_true_eq, not_or, Bool.not_eq_true] at hs
      cases hr : readFlat p.wireType (.ofBytes (p.body number ++ y)) with
      | error f =>
        rw [hr] at h
        cases h
      | ok r =>
        have hf := flat_of_readFlat (q := r.1) (c := r.2) hr
        rw [readFlat_takes hf] at h
        obtain ⟨rfl, rfl⟩ := Prod.mk.inj (Except.ok.inj h)
        exact ⟨⟨hs.1, hf⟩, rfl, rfl⟩
  | succ depth ih =>
    by_cases hw : p.wireType = .startGroup
    · cases p with
      | group rs =>
        rw [wireType, read_group, readRecords, body, List.append_assoc] at h
        cases hr : Cursor.repeatGroup number (readInto (read strict depth))
            ((Cursor.ofBytes (encodeAll rs ++ (encodeKey number .endGroup ++ y))).size + 1) []
            (.ofBytes (encodeAll rs ++ (encodeKey number .endGroup ++ y))) with
        | error f =>
          rw [hr] at h
          cases h
        | ok r =>
          rw [hr] at h
          obtain ⟨rfl, rfl⟩ := Prod.mk.inj (Except.ok.inj h)
          have hends : ∀ r ∈ rs, Ends (readInto (read strict depth)) r.2 := by
            intro r _ acc n z acc' c' hi
            rw [readInto] at hi
            cases hb : read strict depth n r.2.wireType (.ofBytes (r.2.body n ++ z)) with
            | error f =>
              rw [hb] at hi
              cases hi
            | ok s =>
              rw [hb] at hi
              obtain ⟨-, rfl⟩ := Prod.mk.inj (Except.ok.inj hi)
              exact (ih (q := s.1) (c := s.2) hb).2.2
          obtain ⟨-, hc, hsteps⟩ :=
            steps_of_repeatGroup (readInto_local (read_local strict depth)) hends
              (hr.trans rfl)
          have hfit : ∀ r ∈ rs, InRange r.1 ∧ Fits strict depth r.2 := by
            clear hr hends hc h
            generalize ([] : List (Nat × Payload)) = acc at hsteps
            generalize r.1 = acc' at hsteps
            clear hw
            induction hsteps with
            | nil => simp
            | @cons a b c n p rs hn h hs ihs =>
              have hi := h []
              rw [readInto] at hi
              cases hb : read strict depth n p.wireType (.ofBytes (p.body n ++ [])) with
              | error f =>
                rw [hb] at hi
                cases hi
              | ok s =>
                have hf := (ih (q := s.1) (c := s.2) hb).1
                intro r hr
                rcases List.mem_cons.mp hr with rfl | hr
                · exact ⟨hn, hf⟩
                · exact ihs r hr
          have hsteps' : Steps (readInto (read strict depth)) [] rs (rs.reverse ++ []) :=
            steps_of_fits (fun r hr => ⟨(hfit r hr).1, read_takes (hfit r hr).1 (hfit r hr).2⟩) []
          rw [hsteps.unique hsteps']
          exact ⟨hfit, by simp, hc⟩
      | _ => cases hw
    · rw [read_flat _ _ _ hw] at h
      cases hr : readFlat p.wireType (.ofBytes (p.body number ++ y)) with
      | error f =>
        rw [hr] at h
        cases h
      | ok r =>
        have hf := flat_of_readFlat (q := r.1) (c := r.2) hr
        rw [readFlat_takes hf] at h
        obtain ⟨rfl, rfl⟩ := Prod.mk.inj (Except.ok.inj h)
        exact ⟨fits_succ_flat hf, rfl, rfl⟩

end Payload
end DescriptorKit.Wire
