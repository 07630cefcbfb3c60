import DescriptorKit.Proofs.Message.Again
import DescriptorKit.Proofs.Message.Lacks

/-!
Messages that go from one schema to another and back. What the one does not know it keeps as the
other wrote it, so the other finds it again and writes the same; what both know they read alike.
-/
namespace DescriptorKit
open Wire Payload Message

theorem Field.Same.symm {f g : Field} (h : f.Same g) (hm : g.map = false) (ho : g.oneof = none) :
    g.Same f :=
  ⟨h.number.symm, h.name.symm, h.kind.symm, h.repeated.symm, h.presence.symm, hm, ho⟩

namespace Message

variable {B S : Schema} {t u w y : MessageType} {f g : Field} {m : Message} {b x : Bytes}
  {rs : List (Nat × Payload)} {depth n : Nat}

/-- What a schema `S` wrote of what it had read of what another one had read and written before. -/
def Returned (B S : Schema) (depth : Nat) (u t : MessageType) (b : Bytes) : Prop :=
  b.length < 2 ^ 64 ∧ ∃ (b₀ : Bytes) (m₀ m : Message), Fills B .lossless depth u [] b₀ m₀ ∧
    Fills S .lossless depth t [] (Value.encodeSlots m₀) m ∧ b = Value.encodeSlots m

theorem Returned.nil (B S : Schema) (depth : Nat) (u t : MessageType) :
    Returned B S depth u t [] := by
  refine ⟨Nat.two_pow_pos 64, [], [], [], .nil _, ?_, ?_⟩
  all_goals rw [Value.encodeSlots]
  exact .nil _

/-- What was read under one number was read from the records of that number. -/
theorem Fills.exists_only (hS : S.Regular) (ht : t ∈ S.messages) (hc : Calm S t n)
    (h : Fills S .lossless depth t [] b m) :
    ∃ rs, (∀ r ∈ rs, r.1 = n) ∧ Steps (readField S .lossless depth t) [] rs (m.only n) := by
  obtain ⟨rs, -, hsteps⟩ := h.exists_records hS ht
  have hn := Steps.only hsteps .nil hc
  rw [only_nil] at hn
  exact ⟨_, fun r hr => by simpa using (List.mem_filter.mp hr).2, hn⟩

variable (hB : B.Regular) (hu : u ∈ B.messages) (hS : S.Regular) (ht : t ∈ S.messages)

include hB hu hS ht

/-- The records of the bytes, under each number, are those of a message that the schema that wrote
them had read of what the other one had written. -/
theorem Returned.exists_only (h : Returned B S depth u t b) (hp : Parsed depth b rs)
    (hc : Calm S t n) :
    ∃ (b₀ : Bytes) (m₀ m : Message), Fills B .lossless depth u [] b₀ m₀ ∧ Shaped S t m ∧
      Steps (readField S .lossless depth t) [] (Value.recordsOf (m₀.only n)) (m.only n) ∧
        (rs.filter fun r => r.1 = n) = Value.recordsOf (m.only n) ∧
          ∀ r ∈ Value.recordsOf (m.only n), (r.2.body r.1).length < 2 ^ 64 := by
  obtain ⟨hlen, b₀, m₀, m, h₀, h, rfl⟩ := h
  have hm₀ : Shaped B u m₀ := h₀.shaped hB (fun h => by cases h) hu .nil
  have hm : Shaped S t m := h.shaped hS (fun h => by cases h) ht .nil
  rw [Value.encodeSlots_eq_records hS t ht m hm.typed] at hp
  obtain rfl := parsed_encodeAll_inv hp
  exact ⟨b₀, m₀, m, h₀, hm, h.only hB hu hm₀.typed hc, (Value.recordsOf_only n m).symm,
    fun r hr => lt_of_le_of_lt (length_only_le hS ht hm hr) hlen⟩

/-- What the writer does not know stands in the bytes as the other schema writes it. -/
theorem Returned.recordsOf_eq {D : MessageType → Prop} (hD : B.Orderly 0 D) (hDu : D u)
    (h : Returned B S depth u t b) (hp : Parsed depth b rs) (hentry : t.mapEntry = false)
    (hf : B.field? u n = some f) (hc : f.oneof = none) (hnone : S.field? t n = none)
    (hm : Steps (readField B .lossless depth u) [] rs m) :
    Value.recordsOf (m.only n) = rs.filter fun r => r.1 = n := by
  obtain ⟨b₀, m₀, m₁, h₀, -, hsteps, hrs, hlen⟩ := h.exists_only hB hu hS ht hp
    fun g hg => by rw [hnone] at hg; cases hg
  have hsame : Value.recordsOf (m₁.only n) = Value.recordsOf (m₀.only n) := by
    have := recordsOf_of_undeclared hnone hentry (fun r hr => (Value.mem_recordsOf_only.mp hr).2)
      (by simp) hsteps
    rwa [Value.recordsOf, List.nil_append] at this
  have hn := Steps.only hm .nil fun g hg => by rwa [← Option.some.inj (hf.symm.trans hg)]
  rw [only_nil, hrs, hsame] at hn
  rw [hsame] at hlen
  rw [hrs, hsame, hn.unique (steps_only_again hB hD hDu hf h₀ hlen)]

/-- The message in a field that holds one has gone the same way. -/
theorem Returned.merged (h : Returned B S (depth + 1) u t b) (hp : Parsed (depth + 1) b rs)
    (hcB : Calm B u n) (hcS : Calm S t n) (hf : Holds B u n f w) (hg : Holds S t n g y)
    (hrf : f.repeated = false) (hrg : g.repeated = false) {bs : List Bytes}
    (hbs : (rs.filter fun r => r.1 = n) = bs.map fun b => (n, .delimited b)) :
    Returned B S depth w y bs.flatten := by
  obtain ⟨b₀, m₀, m, h₀, -, hsteps, hrs, hlen⟩ := h.exists_only hB hu hS ht hp hcS
  rw [hrs] at hbs
  obtain ⟨rs₀, hrs₀, hn₀⟩ := h₀.exists_only hB hu hcB
  by_cases hne : Value.recordsOf (m₀.only n) = []
  · rw [hne] at hsteps
    generalize hk : m.only n = k at hsteps
    cases hsteps
    rw [hk, Value.recordsOf] at hbs
    rw [List.map_eq_nil_iff.mp hbs.symm]
    exact .nil ..
  obtain ⟨d, bs₁, inner, hd, hbs₁, hfills, hm⟩ := exists_merged hg hrg (fun _ => rfl)
    (fun r hr => (Value.mem_recordsOf_only.mp hr).2) hne hsteps
  obtain rfl := Nat.succ.inj hd
  have hne₀ : rs₀ ≠ [] := by
    rintro rfl
    generalize m₀.only n = k at hn₀ hne
    cases hn₀
    exact hne rfl
  obtain ⟨d, bs₀, inner₀, hd, -, hfills₀, hm₀⟩ := exists_merged hf hrf (fun _ => rfl) hrs₀ hne₀ hn₀
  obtain rfl := Nat.succ.inj hd
  obtain ⟨type, hkf⟩ := hf.kind
  obtain ⟨type', hkg⟩ := hg.kind
  rw [hm₀, recordsOf_message hkf, Schema.field?_number hf.field] at hbs₁
  rw [hm, recordsOf_message hkg, Schema.field?_number hg.field] at hbs hlen
  obtain ⟨_, rfl, hsame₁⟩ := List.map_eq_singleton_iff.mp hbs₁.symm
  obtain ⟨_, rfl, hsame⟩ := List.map_eq_singleton_iff.mp hbs.symm
  obtain rfl := Payload.delimited.inj (Prod.mk.inj hsame₁).2
  obtain rfl := Payload.delimited.inj (Prod.mk.inj hsame).2
  rw [List.flatten_singleton] at hfills ⊢
  exact ⟨length_lt_of_body (hlen _ (List.mem_singleton_self _)), _, _, _, hfills₀, hfills, rfl⟩

/-- So have the messages in a field that holds many. -/
theorem Returned.each (h : Returned B S (depth + 1) u t b) (hp : Parsed (depth + 1) b rs)
    (hcB : Calm B u n) (hcS : Calm S t n) (hf : Holds B u n f w) (hg : Holds S t n g y)
    (hrf : f.repeated = true) (hrg : g.repeated = true) (hpf : f.presence = false)
    (hpg : g.presence = false) (hb : (n, .delimited x) ∈ rs.filter fun r => r.1 = n) :
    Returned B S depth w y x := by
  obtain ⟨b₀, m₀, m, h₀, -, hsteps, hrs, hlen⟩ := h.exists_only hB hu hS ht hp hcS
  obtain ⟨rs₀, hrs₀, hn₀⟩ := h₀.exists_only hB hu hcB
  obtain ⟨vs, hvs, hm₀⟩ := (steps_nil_iff_inside hf hrf hpf hrs₀).mp hn₀
  obtain ⟨ws, hws, hm⟩ := (steps_nil_iff_inside hg hrg hpg
    fun r hr => (Value.mem_recordsOf_only.mp hr).2).mp hsteps
  obtain ⟨type, hkf⟩ := hf.kind
  obtain ⟨type', hkg⟩ := hg.kind
  rw [hrs] at hb
  have hshort := length_lt_of_body (hlen _ hb)
  rw [hm, recordsOf_put_many hrg (hg.not_packed (hS.field ht hg.field))] at hb
  rw [hm₀, recordsOf_put_many hrf (hf.not_packed (hB.field hu hf.field))] at hws
  -- the message was made of one record, and that was written of one message
  obtain ⟨z, hz, hxz⟩ := mem_recordsEach_iff.mp hb
  obtain ⟨r, hr, _, ⟨inner, ⟨d, c, hd, hc, -, hfills⟩, rfl⟩, hmem⟩ := hws.exists_record hz
  obtain rfl := Nat.succ.inj hd
  obtain rfl := List.mem_singleton.mp hmem
  obtain ⟨z₀, hz₀, hrz₀⟩ := mem_recordsEach_iff.mp hr
  obtain ⟨r₀, -, _, ⟨inner₀, ⟨d, c₀, hd, -, -, hfills₀⟩, rfl⟩, hmem⟩ := hvs.exists_record hz₀
  obtain rfl := Nat.succ.inj hd
  obtain rfl := List.mem_singleton.mp hmem
  rw [Value.records, hkg, List.mem_singleton] at hxz
  rw [Value.records, hkf, List.mem_singleton] at hrz₀
  obtain rfl := Payload.delimited.inj (Prod.mk.inj hxz).2
  rw [hrz₀] at hc
  obtain rfl := Payload.delimited.inj hc
  exact ⟨hshort, _, _, _, hfills₀, hfills, rfl⟩

end Message

namespace Schema

variable {S B : Schema} {D E : MessageType → Prop} {spare : Nat}

/-- Types whose fields each stand on their own are found again as they were read. -/
theorem Simple.orderly (hD : S.Simple D) (spare : Nat) : S.Orderly spare D where
  mem := hD.mem
  presence := hD.presence
  entry ht hf hmap := by
    rw [hD.map ht hf] at hmap
    cases hmap
  inner ht hf _ hu := hD.inner ht hf hu

/-- What a schema wrote of what another one had written, which it agrees with, it reads as before
when that one has written it again. -/
theorem Mirrors.rewrites (hM : S.Mirrors B) (hS : S.Regular) (hB : B.Regular)
    (hD : S.Orderly spare D) (hE : B.Simple E)
    (hcalm : ∀ {t u}, D t → Counterpart S B t u → ∀ n, Calm S t n) :
    Rewrites B S .lossless (fun u t => E u ∧ D t ∧ Counterpart S B t u) (Returned B S) where
  left h := ⟨hE.mem h.1, hE.entries h.1⟩
  right h := ⟨hD.mem h.2.1, hcalm h.2.1 h.2.2⟩
  groupless h hf hg type hk :=
    hE.group h.1 hf type ((hM.numbered h.2.2 hg hf).kind.symm.trans hk)
  same h hf hg := by
    have hsame := hM.numbered h.2.2 hg hf
    exact ⟨hsame.symm (hE.map h.1 hf) (hE.oneof h.1 hf), hsame.map, hD.presence h.2.1 hg⟩
  inner h hf hg := by
    obtain ⟨w, hw, hc⟩ := hM.holds h.2.2 hf hg.field
    obtain rfl := Option.some.inj (hg.type.symm.trans hw.type)
    exact ⟨⟨hE.inner h.1 hf.field hf.type, hD.inner h.2.1 hg.field hg.map hg.type, hc⟩,
      fun _ _ => rfl⟩
  within {_ t u _ _ _ _ n _ _} h hw hp hf hg := by
    have ht := hE.mem h.1
    have hu := hD.mem h.2.1
    have hct : Calm B t n := fun f hf => hE.oneof h.1 hf
    have hcu := hcalm h.2.1 h.2.2 n
    have hrepeated := (hM.numbered h.2.2 hg.field hf.field).repeated
    refine ⟨fun hr b hb => ?_, fun hr bs hbs => ?_⟩
    · have hrf := hrepeated.symm.trans hr
      exact hw.each hB ht hS hu hp hct hcu hf hg hrf hr (hE.presence h.1 hf.field hrf)
        (hD.presence h.2.1 hg.field hr) hb
    · exact hw.merged hB ht hS hu hp hct hcu hf hg (hrepeated.symm.trans hr) hr hbs
  skipped h hw hp hf hg hm hk _ := by
    rwa [hw.recordsOf_eq hB (hE.mem h.1) hS (hD.mem h.2.1) (hE.orderly 0) h.1 hp
      (hM.entries h.2.2) hf (hE.oneof h.1 hf) hg hm]

end Schema
end DescriptorKit
