import DescriptorKit.Proofs.Descriptor.Mirrored
import DescriptorKit.Proofs.Message.Drop

/-!
Source locations that are dropped from a mirrored descriptor. Where the schema declares locations
and their paths, those with one of the given paths go and the others stay in their order.
-/
namespace DescriptorKit
open Wire Payload Bundled Message

namespace Message

variable {S B : Schema} {t u v w : MessageType} {f g : Field} {m m' k a b : Message} {n depth : Nat}
  {R : Message → Message → Prop}

/-- A message that was set to what it was is the same. -/
theorem set_self (hm : Shaped S t m) (hf : S.field? t n = some f) (ho : f.oneof = none) {x : Value}
    (hx : x.isZero = false) (h : m.only n = [.known f x]) : m.set f x = m := by
  have hn : f.number = n := Schema.field?_number hf
  refine (hm.sorted.set f x).ext hm.sorted fun j => ?_
  by_cases hj : f.number = j
  · obtain rfl : n = j := hn.symm.trans hj
    rw [only_set_one hm hf ho (Or.inr hx), h]
  · exact only_set_other hm.sorted ho hj

theorem Shaped.get_many (hm : Shaped S t m) (hf : S.field? t f.number = some f)
    (hr : f.repeated = true) : m.get S f = .many (m.valuesOf f) := by
  rw [Message.get, Message.valuesOf]
  cases hv : m.get? f with
  | none =>
    rw [Option.getD_none, Schema.default, if_pos hr]
    rfl
  | some v =>
    have hshaped := hm.value (hm.get? hf hv)
    rw [hr] at hshaped
    cases v with
    | many vs => rfl
    | scalar s =>
      rw [Value.Shaped] at hshaped
      cases hshaped.1
    | message k =>
      rw [Value.Shaped] at hshaped
      cases hshaped.1

/-- What a reader makes of a message with another message in a field, where the other one can be
read and is no longer. -/
theorem reads_of_exchange (hB : ∀ j, Calm B u j) (hf : S.field? t n = some f)
    (hk : ∃ type, f.kind = .message type) (hg : Holds B u n g v) (hr : g.repeated = false)
    (hreq : ∀ f ∈ v.fields, f.required = false)
    (hold : m.only n = [.known f (.message a)]) (hnew : m'.only n = [.known f (.message b)])
    (hothers : ∀ j, j ≠ n → m'.only j = m.only j)
    (hlen : (Value.encodeSlots b).length ≤ (Value.encodeSlots a).length)
    (hin : ∀ d x, Fills B .typed d v [] (Value.encodeSlots a) x →
      ∃ y, Fills B .typed d v [] (Value.encodeSlots b) y ∧ R x y)
    (h : Steps (readField B .typed depth u) [] (Value.recordsOf m) k) :
    ∃ k', Steps (readField B .typed depth u) [] (Value.recordsOf m') k' ∧
      (∀ j, j ≠ n → k'.only j = k.only j) ∧
        ∃ x y, k.get? g = some (.message x) ∧ k'.get? g = some (.message y) ∧ R x y := by
  obtain ⟨type, hkind⟩ := hk
  have hfn : f.number = n := Schema.field?_number hf
  have hgn : g.number = n := Schema.field?_number hg.field
  have hone := steps_message_only (hB n) h
  rw [hold, recordsOf_message hkind, hfn] at hone
  obtain ⟨hrange, x, ⟨d, c, rfl, hc, hsize, hfills⟩, hk⟩ := (steps_one_iff hg hr).mp hone
  obtain rfl := Payload.delimited.inj hc
  obtain ⟨y, hy, hR⟩ := hin d x hfills
  have hone' : Steps (readField B .typed (d + 1) u) [] (Value.recordsOf (m'.only n))
      [.known g (.message (finish B .typed v y))] := by
    rw [hnew, recordsOf_message hkind, hfn]
    exact (steps_one_iff hg hr).mpr
      ⟨hrange, y, ⟨d, _, rfl, rfl, Nat.lt_of_le_of_lt hlen hsize, hy⟩, rfl⟩
  obtain ⟨k', hk'⟩ : ∃ k', Steps (readField B .typed (d + 1) u) [] (Value.recordsOf m') k' := by
    refine exists_steps_message hB fun j => ?_
    by_cases hj : j = n
    · exact ⟨_, hj ▸ hone'⟩
    · rw [hothers j hj]
      exact ⟨_, steps_message_only (hB j) h⟩
  refine ⟨k', hk', fun j hj => ?_, x, y, ?_, ?_, hR⟩
  · have := steps_message_only (hB j) hk'
    rw [hothers j hj] at this
    exact this.unique (steps_message_only (hB j) h)
  · rw [← get?_only hgn k, hk, finish_of_none hreq, get?, if_pos (Slot.holds_known g _)]
  · rw [← get?_only hgn k', (steps_message_only (hB n) hk').unique hone', finish_of_none hreq, get?,
      if_pos (Slot.holds_known g _)]

/-- What a typed reader finds in a field of single values is what the message holds. -/
theorem held_of_fills (hM : S.Mirrors B) (hS : S.Regular) (hc : Schema.Counterpart S B t u)
    (hg : Plain B u n g) (hf : S.field? t n = some f) (hB : Calm B u n) (hm : Shaped S t m)
    (h : Fills B .typed depth u [] (Value.encodeSlots m) k) : held g k = held f m := by
  have hsame := hM.numbered hc hf hg.field
  have hread := Fills.only hS hc.left hm.typed hB h
  have hnumber : ∀ r ∈ Value.recordsOf (m.only n), r.1 = n := by
    intro r hr
    rw [Value.recordsOf_only] at hr
    simpa using (List.mem_filter.mp hr).2
  obtain ⟨vs, hvs, he⟩ := tells_of_steps hg hnumber hread
  have hplain : Plain S t n f := ⟨hf, hsame.kind ▸ hg.single, hsame.map⟩
  have hheld := held_of_tells hplain (hS.field hc.left hf) hm
    (show Tells f.kind f.repeated _ vs by rwa [hsame.kind, hsame.repeated])
  have hnil : held g [] = [] := by
    unfold held
    split <;> rfl
  rw [hnil, ← hsame.repeated, hheld, held, valuesOf, get?_only (Schema.field?_number hg.field),
    ← valuesOf] at he
  exact he

end Message

/-- The number of source locations of a file. -/
def FileDecl.locationCount (D : FileDecl) : Nat := (D.locations.getD []).length

namespace Descriptor

variable {d e : Descriptor} {paths : List (List Int32)} {f : Field} {u w : MessageType}
  {m k : Message} {depth : Nat}

/-- In a list under the number of locations some values may be missing that were there. -/
def Dropped (q : List Nat) (k k' : Message) : Prop :=
  q = [9, 1] ∧ ∃ f vs kept, Lists f vs k ∧ Lists f kept k' ∧ kept.Sublist vs

/-- The schema declares source locations and their paths. -/
def Located (d : Descriptor) : Prop :=
  ∃ f w g u x, d.type.fieldNamed? "source_code_info" = some f ∧ d.schema.messageOf? f = some w ∧
    w.fieldNamed? "location" = some g ∧ d.schema.messageOf? g = some u ∧
      u.fieldNamed? "path" = some x

theorem Builtin.located (h : d.Builtin) : d.Located := by
  have hnamed := types_facts.2.2.1
  rw [Located, h.schema, h.type]
  exact ⟨sourceInfoField, sourceInfoType, locationsField, locationType, locationPathField,
    hnamed (fileType, sourceInfoField) (by simp), holds_sourceInfo.type,
    hnamed (sourceInfoType, locationsField) (by simp), holds_locations.type,
    hnamed (locationType, locationPathField) (by simp)⟩

/-- Source locations that were dropped by their paths. -/
structure Sweeps (paths : List (List Int32)) (d e : Descriptor) : Prop where
  touched : Touched Dropped [9] d e
  locations : d.Located → e.decl.locations =
    d.decl.locations.map fun ls => ls.filter fun l => !paths.contains l.path

theorem locations_eq {info : Message} {ks : List Message}
    (h : m.get? sourceInfoField = some (.message info))
    (hks : info.valuesOf locationsField = ks.map Value.message) :
    (FileDecl.ofMessage m).locations = some (ks.map Location.ofMessage) := by
  have hinfo : m.messageAt? 9 = some info := by
    rw [messageAt?, at?_eq_get? (show sourceInfoField.number = 9 from rfl) rfl, h]
    rfl
  rw [FileDecl.ofMessage, hinfo]
  exact congrArg (fun l => some (List.map Location.ofMessage l)) (messagesAt_eq rfl rfl rfl hks)

/-- The values of a list that are numbers. -/
def numbers (vs : List Value) : List Int32 :=
  vs.filterMap fun
    | .scalar (.int32 n) => some n
    | _ => none

theorem intsAt_eq (n : Nat) (m : Message) : m.intsAt n = numbers (m.manyAt n) := rfl

theorem locationPath_of_get {x : Field} {vs : List Value} {S : Schema}
    (hx : u.fieldNamed? "path" = some x) (h : m.get S x = .many vs) :
    locationPath S (some u) (.message m) = numbers vs := by
  unfold locationPath
  rw [Option.bind_some, hx]
  dsimp only
  rw [h]
  rfl

/-- The path of a location is the one that a typed reader finds. -/
theorem locationPath_eq (h : d.Mirrored)
    (hc : Schema.Counterpart d.schema descriptorSchema u locationType) {x : Field}
    (hx : u.fieldNamed? "path" = some x) (hm : Shaped d.schema u m)
    (hk : Fills descriptorSchema .typed depth locationType [] (Value.encodeSlots m) k) :
    locationPath d.schema (some u) (.message m) = k.intsAt 1 := by
  obtain ⟨hfield, hsame⟩ := h.mirrors.same_of_named h.regular hc hx plain_locationPath.field
    (types_facts.2.2.1 (locationType, locationPathField) (by simp))
  have hr : x.repeated = true := hsame.repeated
  have hheld := held_of_fills h.mirrors h.regular hc plain_locationPath hfield
    (calm locationType_mem 1) hm hk
  rw [locationPath_of_get hx (hm.get_many (hsame.number ▸ hfield) hr), intsAt_eq,
    manyAt_eq (show locationPathField.number = 1 from rfl) rfl rfl, hheld, held, if_pos hr]

/-- Whether a location stays, as a typed reader sees it. -/
def stays (paths : List (List Int32)) (u : MessageType) (k : Message) : Bool :=
  !paths.contains (if (u.fieldNamed? "path").isSome then k.intsAt 1 else [])

theorem locationPath_stays (h : d.Mirrored)
    (hc : Schema.Counterpart d.schema descriptorSchema u locationType) (hm : Shaped d.schema u m)
    (hk : Fills descriptorSchema .typed depth locationType [] (Value.encodeSlots m) k) :
    (!paths.contains (locationPath d.schema (some u) (.message m))) = stays paths u k := by
  rw [stays]
  cases hx : u.fieldNamed? "path" with
  | none => simp [locationPath, hx]
  | some x => rw [locationPath_eq h hc hx hm hk, Option.isSome_some, if_pos rfl]

theorem filter_stays (hx : (u.fieldNamed? "path").isSome) (ks : List Message) :
    (ks.filter (stays paths u)).map Location.ofMessage =
      (ks.map Location.ofMessage).filter fun l => !paths.contains l.path := by
  have hstays : stays paths u = (fun l => !paths.contains l.path) ∘ Location.ofMessage := by
    funext k
    rw [stays, if_pos hx]
    rfl
  rw [List.filter_map, hstays]

/-- What dropping locations leaves, and what a typed reader finds in it. -/
theorem dropLocations_reads (h : d.Mirrored) (hf : d.type.fieldNamed? "source_code_info" = some f)
    (hsome : (d.message.get? f).isSome) (paths : List (List Int32)) :
    Shaped d.schema d.type (d.dropLocations paths f d.message).1 ∧
      (∀ n, Differs Dropped [n] (d.message.only n) ((d.dropLocations paths f d.message).1.only n)) ∧
        ∃ k, Steps (readField descriptorSchema .typed maxDepth fileType) []
            (Value.recordsOf (d.dropLocations paths f d.message).1) k ∧
          (∀ j, j ≠ 9 → k.only j = d.typed.only j) ∧
            (d.Located → (FileDecl.ofMessage k).locations =
              d.decl.locations.map fun ls => ls.filter fun l => !paths.contains l.path) ∧
            (FileDecl.ofMessage k).locationCount + (d.dropLocations paths f d.message).2 =
              d.decl.locationCount := by
  obtain ⟨hfield, hsame⟩ := h.mirrors.same_of_named h.regular h.counterpart hf
    holds_sourceInfo.field
    (types_facts.2.2.1 (fileType, sourceInfoField) (by simp))
  obtain ⟨w, hw, hcw⟩ := h.mirrors.holds h.counterpart holds_sourceInfo hfield
  have hfreg : f.Regular := h.regular.field h.counterpart.left hfield
  obtain ⟨info, hget, hin, honly⟩ := get_of_holds h.shaped hw hfreg hsame.repeated
  have hold : d.message.only 9 = [.known f (.message info)] := by
    rcases honly with ⟨ho, -⟩ | ho
    · rw [← get?_only hsame.number d.message, show sourceInfoField.number = 9 from rfl, ho] at hsome
      cases hsome
    · exact ho
  have htouch : d.message.touch d.schema f = d.message := by
    rw [touch, hget]
    exact set_self h.shaped hfield hsame.oneof rfl hold
  unfold dropLocations
  dsimp only
  rw [htouch, hget, hw.type]
  dsimp only
  cases hg : w.fieldNamed? "location" with
  | none =>
    refine ⟨h.shaped, fun _ => .same _ _, d.typed, h.reads, fun _ _ => rfl, fun hloc => ?_, rfl⟩
    obtain ⟨f', w', g', u, x, hf', hw', hg', -⟩ := hloc
    obtain rfl := Option.some.inj (hf.symm.trans hf')
    obtain rfl := Option.some.inj (hw.type.symm.trans hw')
    rw [hg] at hg'
    cases hg'
  | some g =>
    obtain ⟨hgfield, hgsame⟩ := h.mirrors.same_of_named h.regular hcw hg holds_locations.field
      (types_facts.2.2.1 (sourceInfoType, locationsField) (by simp))
    obtain ⟨u, hu, hcu⟩ := h.mirrors.holds hcw holds_locations hgfield
    obtain ⟨vs, -, htouched, hvs, hdrops⟩ := drops_of_set h.regular hcw.left hin hu hgsame.repeated
      hgsame.oneof hgsame.presence fun l => !paths.contains (locationPath d.schema (some u) l)
    obtain ⟨ms, rfl, hms⟩ := exists_map_message hvs
    dsimp only
    rw [htouched, hu.type]
    dsimp only
    generalize Message.set g (.many ((ms.map Value.message).filter fun l =>
      !paths.contains (locationPath d.schema (some u) l))) (touch d.schema g info) = info'
      at hdrops ⊢
    have hnew : (d.message.set f (.message info')).only 9 = [.known f (.message info')] :=
      only_set_one h.shaped hfield hsame.oneof (Or.inr rfl)
    have hothers : ∀ j, j ≠ 9 → (d.message.set f (.message info')).only j = d.message.only j :=
      fun j hj => only_set_other h.shaped.sorted hsame.oneof fun he =>
        hj (he.symm.trans hsame.number)
    have hshaped : Shaped d.schema d.type (d.message.set f (.message info')) := by
      refine h.shaped.set (hsame.number ▸ hfield) ?_
      rw [Value.Shaped]
      exact ⟨by rw [hsame.repeated]; rfl, Or.inr ⟨w, hw.type, hdrops.shaped⟩⟩
    obtain ⟨k, hk, hkothers, x, y, hx, hy, ks, hks, hks', hcount, hcount'⟩ := reads_of_exchange
      (R := fun x y => ∃ ks : List Message, x.valuesOf locationsField = ks.map Value.message ∧
        y.valuesOf locationsField = (ks.filter (stays paths u)).map Value.message ∧
        ks.length = (ms.map Value.message).length ∧
        (ks.filter (stays paths u)).length = ((ms.map Value.message).filter fun l =>
          !paths.contains (locationPath d.schema (some u) l)).length)
      (calm fileType_mem) hfield hw.kind holds_sourceInfo rfl
      (types_facts.2.2.2.1 sourceInfoType (by simp)) hold hnew hothers hdrops.length
      (fun depth x hx => by
        obtain ⟨y, hy, -, hxy⟩ := hdrops.reads h.regular (calm sourceInfoType_mem) hcw.left hu
          holds_locations rfl (types_facts.2.2.2.1 locationType (by simp))
          (fun l hl _ _ hfills => locationPath_stays h hcu (hms l hl) hfills)
          ((fills_encode_iff h.regular hcw.left hin.typed).mp hx)
        exact ⟨y, (fills_encode_iff h.regular hcw.left hdrops.shaped.typed).mpr hy, hxy⟩) h.reads
    refine ⟨hshaped, fun n => ?_, k, hk, hkothers, fun hloc => ?_, ?_⟩
    · by_cases hn : n = 9
      · subst hn
        rw [hold, hnew]
        refine .message hin.sorted hdrops.shaped.sorted fun j => ?_
        by_cases hj : j = 1
        · subst hj
          exact .allowed ⟨rfl, g, _, _, hdrops.before, hdrops.after, List.filter_sublist⟩
        · rw [hdrops.others j hj]
          exact .same _ _
      · rw [hothers n hn]
        exact .same _ _
    · obtain ⟨f', w', g', u', z, hf', hw', hg', hu', hz⟩ := hloc
      obtain rfl := Option.some.inj (hf.symm.trans hf')
      obtain rfl := Option.some.inj (hw.type.symm.trans hw')
      obtain rfl := Option.some.inj (hg.symm.trans hg')
      obtain rfl := Option.some.inj (hu.type.symm.trans hu')
      rw [decl, locations_eq hx hks, locations_eq hy hks', Option.map_some,
        filter_stays (Option.isSome_iff_exists.mpr ⟨z, hz⟩)]
    · have hle := List.length_filter_le (stays paths u) ks
      rw [decl, FileDecl.locationCount, FileDecl.locationCount, locations_eq hx hks,
        locations_eq hy hks', Option.getD_some, Option.getD_some, ← hcount, ← hcount',
        List.length_map, List.length_map, Nat.add_sub_cancel' hle]

/-- Without locations there are none to drop. -/
theorem locations_of_get? (h : d.Mirrored) (hf : d.type.fieldNamed? "source_code_info" = some f)
    (hnone : d.message.get? f = none) : d.decl.locations = none := by
  obtain ⟨hfield, hsame⟩ := h.mirrors.same_of_named h.regular h.counterpart hf
    holds_sourceInfo.field
    (types_facts.2.2.1 (fileType, sourceInfoField) (by simp))
  have hmessage : d.message.only 9 = [] := by
    rcases only_of_shaped hfield h.shaped with ho | ⟨v, ho⟩
    · exact ho
    · rw [← get?_only hsame.number d.message, ho, get?, if_pos (Slot.holds_known f v)] at hnone
      cases hnone
  have htyped : d.typed.only 9 = [] := by
    have := steps_message_only (calm fileType_mem 9) h.reads
    rw [hmessage] at this
    exact this.unique (.nil [])
  have hinfo : d.typed.messageAt? 9 = none := by
    rw [messageAt?, ← at?_only, htyped]
    rfl
  rw [decl, FileDecl.ofMessage, hinfo, Option.map_none]

/-- Dropping locations succeeds, and those that are gone are counted. -/
theorem removeLocations_sweeps (h : d.Mirrored) (paths : List (List Int32)) :
    ∃ n, (d.removeLocations paths).2 = .ok n ∧ Sweeps paths d (d.removeLocations paths).1 ∧
      (d.removeLocations paths).1.decl.locationCount + n = d.decl.locationCount := by
  unfold removeLocations
  cases hf : d.type.fieldNamed? "source_code_info" with
  | none =>
    refine ⟨0, rfl, ⟨.refl h, fun hloc => ?_⟩, rfl⟩
    obtain ⟨f, w, g, u, x, hf', -⟩ := hloc
    rw [hf] at hf'
    cases hf'
  | some f =>
    dsimp only
    by_cases hempty : paths = [] ∨ (d.message.get? f).isNone
    · rw [if_pos hempty]
      refine ⟨0, rfl, ⟨.refl h, fun _ => ?_⟩, rfl⟩
      rcases hempty with rfl | hnone
      · simp
      · rw [locations_of_get? h hf (by simpa using hnone), Option.map_none]
    · rw [if_neg hempty]
      have hsome : (d.message.get? f).isSome := by
        rw [Option.isSome_iff_ne_none]
        exact fun hn => hempty (Or.inr (by rw [hn]; rfl))
      obtain ⟨hshaped, hdiffers, k, hk, hothers, hlocations, hcount⟩ :=
        dropLocations_reads h hf hsome paths
      have hread : readTyped (d.dropLocations paths f d.message).1.encode = .ok k :=
        readTyped_eq_ok_iff.mpr
          ((fills_encode_iff h.regular h.counterpart.left hshaped.typed).mpr hk)
      rcases d.modify_cases (fun m => ((d.dropLocations paths f m).1,
        .ok (d.dropLocations paths f m).2)) with ⟨fault, hfault, -⟩ | ⟨typed, htyped, hmod⟩
      · rw [hread] at hfault
        cases hfault
      · obtain rfl : k = typed := Except.ok.inj (hread.symm.trans htyped)
        rw [hmod]
        exact ⟨_, rfl, ⟨⟨⟨h.regular, h.mirrors, h.counterpart, hshaped, hread⟩, rfl, rfl, hdiffers,
          fun j hj => hothers j fun he => hj (he ▸ List.mem_singleton_self _)⟩,
          hlocations⟩, hcount⟩

end Descriptor

end DescriptorKit
