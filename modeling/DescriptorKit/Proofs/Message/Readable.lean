import DescriptorKit.Proofs.Message.Element
import DescriptorKit.Proofs.Message.Required

/-!
Setting options where the fields for them are declared. It succeeds, and a typed reader that got
through the message before gets through the message after, if its lengths can be written.
-/
namespace DescriptorKit
open Wire Payload

theorem Value.fits_congr {f g : Field} {s : Scalar} (hk : f.kind = g.kind) :
    (Value.scalar s).fits f = (Value.scalar s).fits g := by
  unfold fits
  rw [hk]

/-- A field that both schemas declare under one number has its name in both. -/
theorem Schema.Mirrors.exists_named {S B : Schema} {t u : MessageType} {g : Field}
    (hM : S.Mirrors B) (hc : Counterpart S B t u) (hg : B.field? u g.number = some g)
    (hf : (t.fieldNumbered? g.number).isSome) : ∃ f, t.fieldNamed? g.name = some f := by
  obtain ⟨f, hf⟩ := Option.isSome_iff_exists.mp hf
  have hfield : S.field? t g.number = some f := by
    rw [field?, hf]
    rfl
  refine Option.isSome_iff_exists.mp (List.find?_isSome.mpr ⟨f, List.mem_of_find?_eq_some hf, ?_⟩)
  simpa using (hM.numbered hc hfield hg).name

namespace Message

variable {S B : Schema} {t u v w : MessageType} {f g o x : Field} {m m' : Message} {s : Scalar}
  {n i depth : Nat} {a : Breach} {b : SetFault → Breach} {number index : Int32}
  {step : MessageType → Message → Message × Except Breach Unit}

/-- A typed reader gets through what is written of a message. -/
def Readable (B : Schema) (depth : Nat) (u : MessageType) (m : Message) : Prop :=
  ∃ k, Steps (readField B .typed depth u) [] (Value.recordsOf m) k

theorem Readable.nil : Readable B depth u [] := by
  rw [Readable, Value.recordsOf]
  exact ⟨[], .nil []⟩

/-- The fields of a message are read one by one. -/
theorem readable_iff (hc : ∀ n, Calm B u n) :
    Readable B depth u m ↔ ∀ n, Readable B depth u (m.only n) :=
  ⟨fun ⟨_, hk⟩ n => ⟨_, steps_message_only (hc n) hk⟩, exists_steps_message hc⟩

/-- A message in a field can be read there if it can be read by itself, one level down. -/
theorem inside_iff (hS : S.Regular) (hw : w ∈ S.messages) (hm : Shaped S w m) :
    (∃ k, Inside B .typed (depth + 1) v [] (.delimited (Value.encodeSlots m)) k) ↔
      (Value.encodeSlots m).length < 2 ^ 64 ∧ Readable B depth v m := by
  constructor
  · rintro ⟨k, d, b, hd, hb, hlen, hfills⟩
    obtain rfl := Nat.succ.inj hd
    obtain rfl := Payload.delimited.inj hb
    exact ⟨hlen, k, (fills_encode_iff hS hw hm.typed).mp hfills⟩
  · rintro ⟨hlen, k, hk⟩
    exact ⟨k, depth, _, rfl, rfl, hlen, (fills_encode_iff hS hw hm.typed).mpr hk⟩

section Options

/-- Setting a scalar leaves a message that can be read. -/
theorem Readable.set (hc : Schema.Counterpart S B w v) (hS : S.Regular) (hx : Plain S w n x)
    (hsame : x.Same g) (hg : Plain B v n g) (hp : g.presence = true) (hcalm : ∀ n, Calm B v n)
    (hn : InRange n) (hs : s.Fits x.kind) (hm : Shaped S w m)
    (hset : Shaped S w (m.set x (.scalar s)))
    (hlen : (Value.encodeSlots (m.set x (.scalar s))).length < 2 ^ 64) (h : Readable B depth v m) :
    Readable B depth v (m.set x (.scalar s)) := by
  refine (readable_iff hcalm).mpr fun j => ?_
  have hxn : x.number = n := Schema.field?_number hx.field
  by_cases hj : x.number = j
  · obtain rfl : n = j := hxn.symm.trans hj
    have hone := only_set_one (w := .scalar s) hm hx.field hsame.oneof
      (Or.inl (hsame.presence.trans hp))
    have hrec : Value.recordsOf ((m.set x (.scalar s)).only n) = [(n, s.payload x.kind)] := by
      rw [hone, Value.recordsOf, Value.recordsOf, List.append_nil, Value.slotRecords, Value.records,
        hxn]
    have hmem : (n, s.payload x.kind) ∈ Value.recordsOf ((m.set x (.scalar s)).only n) :=
      hrec ▸ List.mem_singleton_self _
    have hbody : ((s.payload x.kind).body n).length < 2 ^ 64 :=
      Nat.lt_of_le_of_lt (length_only_le hS hc.left hset hmem) hlen
    rw [Readable, hrec]
    rw [hsame.kind] at hs hbody ⊢
    exact ⟨_, .cons hn ((readField_iff_told hg).mpr ⟨_, told_of_fits hg.single hs hbody, rfl⟩)
      (.nil _)⟩
  · rw [only_set_other hm.sorted hsame.oneof hj]
    exact (readable_iff hcalm).mp h j

/-- Setting an option leaves a message that can be read, if its options can lie one level down. -/
theorem SetsOption.readable (h : SetsOption S B t v o g s m m') (hS : S.Regular)
    (hA : B.Asks (· ∈ B.messages)) (hu : u ∈ B.messages) (ho : HasOption B u o v g)
    (hsize : Sized o.number m') (hm : Readable B (depth + 1) u m) :
    Readable B (depth + 1) u m' := by
  obtain ⟨-, hothers, f, w, x, options, -, hf, hsame, hcw, -, hx, hxsame, hfit, hshaped, -, hold,
    hnew⟩ := h
  obtain ⟨type, hkind⟩ := hf.kind
  refine (readable_iff ho.calm).mpr fun n => ?_
  by_cases hn : n = o.number
  · subst hn
    have hset : Shaped S w (Message.set x (.scalar s) options) := by
      refine hshaped.set (hxsame.number ▸ hx.field) ?_
      rw [Value.Shaped, hxsame.repeated, ho.option_single]
      exact ⟨rfl, hfit⟩
    have hin : (o.number, Payload.delimited
      (Value.encodeSlots (Message.set x (.scalar s) options))) ∈
        Value.recordsOf (m'.only o.number) := by
      rw [hnew, recordsOf_message hkind, hsame.number]
      exact List.mem_singleton_self _
    have hlen := hsize _ (Value.mem_recordsOf_only.mp hin).1
    have hoptions : Readable B depth v options := by
      rcases hold with ⟨-, rfl⟩ | hold
      · exact .nil
      · obtain ⟨k, hk⟩ := (readable_iff ho.calm).mp hm o.number
        rw [hold, recordsOf_message hkind, hsame.number] at hk
        obtain ⟨-, inner, hinner, -⟩ := (steps_one_iff ho.options ho.options_single).mp hk
        exact ((inside_iff hS hcw.left hshaped).mp ⟨inner, hinner⟩).2
    obtain ⟨inner, hinner⟩ := (inside_iff hS hcw.left hset).mpr ⟨hlen, hoptions.set hcw hS hx hxsame
      ho.option ho.presence ho.calm_options (hA.inRange hcw.right ho.option.field) hfit hshaped hset
      hlen⟩
    rw [Readable, hnew, recordsOf_message hkind, hsame.number]
    exact ⟨_, (steps_one_iff ho.options ho.options_single).mpr
      ⟨hA.inRange hu ho.options.field, inner, hinner, rfl⟩⟩
  · rw [hothers n hn]
    exact (readable_iff ho.calm).mp hm n

/-- Where the options and the field in them are declared, setting it succeeds. -/
theorem setOption_ok (hM : S.Mirrors B) (hS : S.Regular) (hc : Schema.Counterpart S B t u)
    (ho : HasOption B u o v g) (hfits : (Value.scalar s).fits g = true)
    (hf : (t.fieldNumbered? o.number).isSome)
    (hx : ∀ w, Schema.Counterpart S B w v → (w.fieldNumbered? g.number).isSome)
    (hm : Shaped S t m) :
    (m.setOption S t g.name s a b).2 = .ok () := by
  obtain ⟨f, hnamed⟩ := hM.exists_named hc ho.options.field hf
  have hname : o.name = "options" := by simpa using List.find?_some ho.options_named
  rw [hname] at hnamed
  obtain ⟨hfield, hsame⟩ := hM.same_of_named hS hc hnamed ho.options.field ho.options_named
  obtain ⟨w, hw, hcw⟩ := hM.holds hc ho.options hfield
  obtain ⟨options, hget, -, -⟩ := get_of_holds hm hw (hS.field hc.left hfield)
    (hsame.repeated.trans ho.options_single)
  obtain ⟨x, hxnamed⟩ := hM.exists_named hcw ho.option.field (hx w hcw)
  obtain ⟨-, hxsame⟩ := hM.same_of_named hS hcw hxnamed ho.option.field ho.option_named
  rw [setOption, hnamed]
  dsimp only
  rw [get_touch_message hget, hw.type]
  dsimp only
  rw [setNamed, hxnamed]
  dsimp only
  rw [if_pos (Value.fits_congr hxsame.kind ▸ hfits)]

end Options

section Paths

/-- Messages in a list can be read if each of them can. -/
theorem readable_messages (hg : Holds B u n g v) (hr : g.repeated = true) (hf : Holds S t n f w)
    (hreg : f.Regular) (ms : List Message) :
    Readable B depth u [.known f (.many (ms.map Value.message))] ↔ ∀ x ∈ ms, InRange n ∧
      ∃ k, Inside B .typed depth v [] (.delimited (Value.encodeSlots x)) k := by
  have hnumber : ∀ r ∈ ms.map fun x => (n, Payload.delimited (Value.encodeSlots x)), r.1 = n :=
    fun _ => number_of_mem_messages
  rw [Readable, recordsOf_messages hf hreg]
  constructor
  · rintro ⟨k, hk⟩ x hx
    obtain ⟨ks, hks, -⟩ := inners_of_steps hg hr hnumber hk
    obtain ⟨-, -, hn, inner, hinner, -⟩ :=
      exists_of_forall₂ (List.forall₂_map_left_iff.mp hks).flip hx
    exact ⟨hn, inner, hinner⟩
  · intro h
    have hone : ∀ r ∈ ms.map fun x => ((n, .delimited (Value.encodeSlots x)) : Nat × Payload),
        ∃ k, InRange r.1 ∧ ∃ inner, Inside B .typed depth v [] r.2 inner ∧
          k = finish B .typed v inner := by
      intro r hr
      obtain ⟨x, hx, rfl⟩ := List.mem_map.mp hr
      obtain ⟨hn, inner, hinner⟩ := h x hx
      exact ⟨_, hn, inner, hinner, rfl⟩
    obtain ⟨ks, hks⟩ := exists_forall₂ hone
    obtain ⟨k, hk, -⟩ := steps_of_inners hg hr hnumber hks []
    exact ⟨k, hk⟩

/-- A step on messages of a type leaves messages of the type. Where it succeeds on one that can be
read at some depth, it leaves one that can be read there, if that is not too long. -/
def KeepsReadable (S B : Schema) (depth : Nat) (v : MessageType)
    (step : MessageType → Message → Message × Except Breach Unit) : Prop :=
  ∀ w m, Schema.Counterpart S B w v → Shaped S w m → Shaped S w (step w m).1 ∧
    ((step w m).2 = .ok () → (Value.encodeSlots (step w m).1).length < 2 ^ 64 →
      Readable B depth v m → Readable B depth v (step w m).1)

theorem SetsElement.readable (h : SetsElement S B t v n g i step m m') (hS : S.Regular)
    (ht : t ∈ S.messages) (hg : Holds B u n g v) (hr : g.repeated = true)
    (hcalm : ∀ n, Calm B u n) (hsize : Sized n m')
    (hstep : KeepsReadable S B depth v step)
    (hm : Readable B (depth + 1) u m) : Readable B (depth + 1) u m' := by
  obtain ⟨hothers, f, w, vs, inner, hf, -, hcw, hvs, hold, hi, hok, hnew⟩ := h
  obtain ⟨ms, rfl, hms⟩ := exists_map_message hvs
  have hreg : f.Regular := hS.field ht hf.field
  refine (readable_iff hcalm).mpr fun j => ?_
  by_cases hj : j = n
  · subst hj
    have hread := (readable_iff hcalm).mp hm j
    rw [hold, readable_messages hg hr hf hreg] at hread
    have hinner : inner ∈ ms := by
      obtain ⟨x, hx, he⟩ := List.mem_map.mp (List.mem_of_getElem? hi)
      exact Value.message.inj he ▸ hx
    obtain ⟨hshaped, hkeeps⟩ := hstep w inner hcw (hms inner hinner)
    have hlen : (Value.encodeSlots (step w inner).1).length < 2 ^ 64 := by
      have hlt : i < ms.length := by
        obtain ⟨hlt, -⟩ := List.getElem?_eq_some_iff.mp hi
        rwa [List.length_map] at hlt
      have hin : (j, Payload.delimited (Value.encodeSlots (step w inner).1)) ∈
          Value.recordsOf (m'.only j) := by
        rw [hnew, ← List.map_set, recordsOf_messages hf hreg]
        exact List.mem_map_of_mem (List.mem_set hlt _)
      exact hsize _ (Value.mem_recordsOf_only.mp hin).1
    rw [hnew, ← List.map_set, readable_messages hg hr hf hreg]
    intro x hx
    rcases List.mem_or_eq_of_mem_set hx with hx | rfl
    · exact hread x hx
    · obtain ⟨hn, hinside⟩ := hread inner hinner
      have hbefore := ((inside_iff hS hcw.left (hms inner hinner)).mp hinside).2
      exact ⟨hn, (inside_iff hS hcw.left hshaped).mpr ⟨hlen, hkeeps hok hlen hbefore⟩⟩
  · rw [hothers j hj]
    exact (readable_iff hcalm).mp hm j

/-- Changing one message in a list keeps messages readable, one level up, if the change does. -/
theorem updateAt_keeps {missing : Breach} {rest : List Int32}
    {change : MessageType → Message → Message × Except Breach Unit} (hM : S.Mirrors B)
    (hS : S.Regular) (hg : Holds B u n g v) (hr : g.repeated = true) (hcalm : ∀ n, Calm B u n)
    (hn : number.toInt = n) (h : KeepsReadable S B depth v (updateAt S missing change rest)) :
    KeepsReadable S B (depth + 1) u (updateAt S missing change (number :: index :: rest)) := by
  intro t m hc hm
  obtain ⟨hshaped, hset⟩ := updateAt_shaped missing change index rest hM hc hg hr hn hm
    fun w inner hw hin => (h w inner hw hin).1
  exact ⟨hshaped, fun hok hlen => (hset hok).2.readable hS hc.left hg hr hcalm
    (sized_of_length hS hc.left hshaped hlen _) h⟩

/-- What a typed reader found in a list of messages was read from one of them. -/
theorem exists_element {k z : Message} {ks : List Message} (hS : S.Regular) (ht : t ∈ S.messages)
    (hg : Holds B u n g v) (hr : g.repeated = true) (hcalm : ∀ n, Calm B u n)
    (hf : Holds S t n f w) (hfr : f.repeated = true) (hm : Shaped S t m)
    (hk : Steps (readField B .typed depth u) [] (Value.recordsOf m) k)
    (hks : k.valuesOf g = ks.map Value.message) (hz : ks[i]? = some z) :
    ∃ (ms : List Message) (inner y : Message), m.get S f = .many (ms.map Value.message) ∧
      ms[i]? = some inner ∧ Shaped S w inner ∧
        Inside B .typed depth v [] (.delimited (Value.encodeSlots inner)) y ∧
          z = finish B .typed v y := by
  obtain ⟨vs, hget, hvs, honly⟩ := get_of_holds_many hm hf hfr
  obtain ⟨ms, rfl, hms⟩ := exists_map_message hvs
  have hread := steps_message_only (hcalm n) hk
  have hrecords : Value.recordsOf (m.only n) =
      ms.map fun x => (n, .delimited (Value.encodeSlots x)) := by
    rcases honly with ⟨honly, hnil⟩ | honly
    · rw [honly, List.map_eq_nil_iff.mp hnil, Value.recordsOf]
      rfl
    · rw [honly, recordsOf_messages hf (hS.field ht hf.field)]
  rw [hrecords] at hread
  obtain ⟨ks', hks', hvalues⟩ := inners_of_steps hg hr (fun _ => number_of_mem_messages) hread
  have hsame : ks' = ks := by
    rw [valuesOf, get?_only (Schema.field?_number hg.field), ← valuesOf, hks] at hvalues
    exact (List.map_injective_iff.mpr (fun _ _ => Value.message.inj) hvalues).symm
  subst hsame
  have hks' := List.forall₂_map_left_iff.mp hks'
  obtain ⟨hlt, hzi⟩ := List.getElem?_eq_some_iff.mp hz
  have hlt' : i < ms.length := by rwa [hks'.length_eq]
  obtain ⟨-, y, hy, hfinish⟩ := hks'.get hlt' hlt
  exact ⟨ms, ms[i], y, hget, List.getElem?_eq_getElem hlt', hms _ (List.getElem_mem hlt'), hy,
    hzi ▸ hfinish⟩

/-- A change along a path goes on in the message that a typed reader found in a list. -/
theorem updateAt_enters {k z : Message} {ks : List Message} (hM : S.Mirrors B) (hS : S.Regular)
    (hc : Schema.Counterpart S B t u) (hg : Holds B u n g v) (hr : g.repeated = true)
    (hcalm : ∀ n, Calm B u n) (hn : number.toInt = n) (hi : index.toInt = i)
    (hf : (t.fieldNumbered? n).isSome) (hm : Shaped S t m)
    (hk : Steps (readField B .typed depth u) [] (Value.recordsOf m) k)
    (hks : k.valuesOf g = ks.map Value.message) (hz : ks[i]? = some z) :
    ∃ w inner d y, Schema.Counterpart S B w v ∧ Shaped S w inner ∧ depth = d + 1 ∧
      Steps (readField B .typed d v) [] (Value.recordsOf inner) y ∧ z = finish B .typed v y ∧
        ∀ missing change rest, (updateAt S missing change (number :: index :: rest) t m).2 =
          (updateAt S missing change rest w inner).2 := by
  obtain ⟨f, hf⟩ := Option.isSome_iff_exists.mp hf
  have hfield : S.field? t n = some f := by
    rw [Schema.field?, hf]
    rfl
  obtain ⟨w, hw, hcw⟩ := hM.holds hc hg hfield
  have hfr : f.repeated = true := (hM.numbered hc hfield hg.field).repeated.trans hr
  obtain ⟨ms, inner, y, hget, hinner, hshaped, ⟨d, b, hd, hb, -, hfills⟩, hfinish⟩ :=
    exists_element hS hc.left hg hr hcalm hw hfr hm hk hks hz
  obtain rfl := Payload.delimited.inj hb
  refine ⟨w, inner, d, y, hcw, hshaped, hd,
    (fills_encode_iff hS hcw.left hshaped.typed).mp hfills, hfinish, fun missing change rest => ?_⟩
  rw [updateAt, if_pos (by omega), hn, Int.toNat_natCast, hf]
  dsimp only
  rw [get_touch_many hfr hget, hw.type]
  dsimp only
  rw [if_pos (by omega), hi, Int.toNat_natCast, List.getElem?_map, hinner]
  rfl

end Paths

end Message
end DescriptorKit
