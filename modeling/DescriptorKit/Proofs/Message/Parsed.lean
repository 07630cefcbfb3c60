import DescriptorKit.Proofs.Except
import DescriptorKit.Proofs.Message.Records

/-!
The records that stand in some bytes. They are the same for every reader that gets past them, and a
reader makes the same of the records as they would be written.
-/
namespace DescriptorKit
open Wire Payload

namespace Wire

variable {strict : Bool} {depth n : Nat} {w : WireType} {x y k : Bytes} {p : Payload}
  {acc acc' : List (Nat × Payload)}

theorem inRange_of_key (h : Takes Cursor.key k (n, w)) : InRange n := by
  have hk := h []
  rw [Cursor.key_eq] at hk
  obtain ⟨⟨key, c⟩, -, hk⟩ := bind_eq_ok_iff.mp hk
  rw [Cursor.toldBy, Cursor.keyOf] at hk
  split at hk
  · rename_i told htold
    obtain ⟨rfl, -⟩ := Prod.mk.inj (Except.ok.inj hk)
    split at htold
    · cases htold
    · split at htold
      · cases htold
      · split at htold
        · cases htold
        · obtain ⟨rfl, -⟩ := Prod.mk.inj (Except.ok.inj htold)
          exact ⟨by omega, by omega⟩
  · cases hk

namespace Payload

theorem takes_readFlat (h : Takes (readFlat w) x p) : p.wireType = w ∧ p.Flat := by
  have hr := h []
  cases w with
  | startGroup => cases hr
  | endGroup => cases hr
  | delimited =>
    obtain ⟨⟨b, c⟩, hb, hp⟩ := bind_eq_ok_iff.mp hr
    obtain ⟨⟨size, c'⟩, hsize, hb⟩ := bind_eq_ok_iff.mp hb
    obtain ⟨rfl, -⟩ := Prod.mk.inj (Except.ok.inj hp)
    refine ⟨rfl, ?_⟩
    have hlt := Cursor.readVarint_lt hsize
    change c'.take size = _ at hb
    unfold Cursor.take at hb
    split at hb
    · obtain ⟨rfl, -⟩ := Prod.mk.inj (Except.ok.inj hb)
      exact lt_of_le_of_lt (List.length_take_le _ _) hlt
    · cases hb
  | varint =>
    obtain ⟨b, -, hp⟩ := bind_eq_ok_iff.mp hr
    obtain ⟨rfl, -⟩ := Prod.mk.inj (Except.ok.inj hp)
    exact ⟨rfl, trivial⟩
  | fixed64 =>
    obtain ⟨b, -, hp⟩ := bind_eq_ok_iff.mp hr
    obtain ⟨rfl, -⟩ := Prod.mk.inj (Except.ok.inj hp)
    exact ⟨rfl, trivial⟩
  | fixed32 =>
    obtain ⟨b, -, hp⟩ := bind_eq_ok_iff.mp hr
    obtain ⟨rfl, -⟩ := Prod.mk.inj (Except.ok.inj hp)
    exact ⟨rfl, trivial⟩

theorem takes_mapError {ε ε' α : Type} {read : Cursor → Except ε (α × Cursor)} {f : ε → ε'}
    {a : α} :
    Takes (fun c => (read c).mapError f) x a ↔ Takes read x a :=
  forall_congr' fun _ => mapError_eq_ok_iff

theorem takes_readInto {read : Nat → WireType → Cursor → Except Failure (Payload × Cursor)}
    (hl : Local (read n w)) :
    Takes (readInto read acc n w) x acc' ↔ ∃ p, Takes (read n w) x p ∧ acc' = (n, p) :: acc := by
  constructor
  · intro h
    have hr := h []
    rw [readInto] at hr
    cases hp : read n w (.ofBytes (x ++ [])) with
    | error f =>
      rw [hp] at hr
      cases hr
    | ok r =>
      rw [hp] at hr
      obtain ⟨rfl, hc⟩ := Prod.mk.inj (Except.ok.inj hr)
      exact ⟨r.1, hl.takes (hp.trans (by rw [← hc])), rfl⟩
  · rintro ⟨p, h, rfl⟩ y
    rw [readInto, h]

/-- A group that was read as records, strictly or not. -/
theorem group_readInto
    (hin : ∀ {n w x p}, Takes (read strict depth n w) x p →
      p.wireType = w ∧ Fits strict depth p ∧ Takes (read false depth n w) x p)
    (h : Cursor.Group n (readInto (read strict depth)) acc x acc') :
    ∃ rs : List (Nat × Payload), acc' = rs.reverse ++ acc ∧
      (∀ r ∈ rs, InRange r.1 ∧ Fits strict depth r.2) ∧
        Cursor.Group n (readInto (read false depth)) acc x acc' := by
  induction h with
  | stop hk => exact ⟨[], rfl, by simp, .stop hk⟩
  | @cons a b c k y z inner w hk hw h _ ih =>
    obtain ⟨p, hp, rfl⟩ := (takes_readInto (read_local _ _ _ _)).mp h
    obtain ⟨-, hfits, hread⟩ := hin hp
    obtain ⟨rs, rfl, hrs, hgroup⟩ := ih
    refine ⟨(inner, p) :: rs, by simp, ?_,
      .cons hk hw ((takes_readInto (read_local _ _ _ _)).mpr ⟨p, hread, rfl⟩) hgroup⟩
    exact List.forall_mem_cons.mpr ⟨⟨inRange_of_key hk, hfits⟩, hrs⟩

theorem takes_read_group : Takes (read strict (depth + 1) n .startGroup) x p ↔
    ∃ acc, Cursor.Group n (readInto (read strict depth)) [] x acc ∧ p = .group acc.reverse := by
  have hl := readInto_local (read_local strict depth)
  rw [show read strict (depth + 1) n .startGroup = _ from funext (read_group strict depth n)]
  constructor
  · intro h
    obtain ⟨⟨acc, c⟩, hr, hp⟩ := bind_eq_ok_iff.mp (h [])
    obtain ⟨rfl, rfl⟩ := Prod.mk.inj (Except.ok.inj hp)
    obtain ⟨x', y, hb, hc, hg⟩ := Cursor.repeatGroup_inv hl hr
    obtain rfl := ofBytes_inj hc
    obtain rfl := List.append_cancel_right hb
    exact ⟨acc, hg, rfl⟩
  · rintro ⟨acc, h, rfl⟩ y
    exact bind_eq_ok_iff.mpr ⟨(acc, _), Cursor.repeatGroup_takes h y, rfl⟩

theorem takes_read_flat (hw : w ≠ .startGroup) : Takes (read strict depth n w) x p ↔
    (depth = 0 → strict = false) ∧ Takes (readFlat w) x p := by
  cases depth with
  | zero =>
    constructor
    · intro h
      have hr := h []
      rw [read_zero] at hr
      split at hr
      · cases hr
      · rename_i hs
        refine ⟨fun _ => by simpa [hw] using hs, fun y => ?_⟩
        have hy := h y
        rw [read_zero, if_neg hs] at hy
        exact mapError_eq_ok_iff.mp hy
    · rintro ⟨hs, h⟩ y
      rw [read_zero, if_neg (by simp [hs rfl, hw])]
      exact mapError_eq_ok_iff.mpr (h y)
  | succ depth =>
    rw [show read strict (depth + 1) n w = _ from funext (read_flat strict depth n hw),
      takes_mapError]
    simp

/-- What a reader gets past fits, and any reader gets past it. -/
theorem takes_read (h : Takes (read strict depth n w) x p) :
    p.wireType = w ∧ Fits strict depth p ∧ Takes (read false depth n w) x p := by
  induction depth generalizing n w x p with
  | zero =>
    by_cases hw : w = .startGroup
    · have hr := h []
      rw [read_zero, if_pos (by simp [hw])] at hr
      cases hr
    · obtain ⟨hs, hflat⟩ := (takes_read_flat hw).mp h
      obtain ⟨hw', hp⟩ := takes_readFlat hflat
      exact ⟨hw', ⟨hs rfl, hp⟩, (takes_read_flat hw).mpr ⟨fun _ => rfl, hflat⟩⟩
  | succ depth ih =>
    by_cases hw : w = .startGroup
    · subst hw
      obtain ⟨acc, hg, rfl⟩ := takes_read_group.mp h
      obtain ⟨rs, rfl, hrs, hg'⟩ := group_readInto ih hg
      refine ⟨rfl, fun r hr => hrs r ?_, takes_read_group.mpr ⟨_, hg', rfl⟩⟩
      simpa using hr
    · obtain ⟨-, hflat⟩ := (takes_read_flat hw).mp h
      obtain ⟨hw', hp⟩ := takes_readFlat hflat
      exact ⟨hw', fits_succ_flat hp, (takes_read_flat hw).mpr ⟨fun _ => rfl, hflat⟩⟩

end Payload
end Wire

namespace Message

variable {S : Schema} {reading : Reading} {t : MessageType} {m m' : Message} {n depth : Nat}
  {w : WireType} {x b : Bytes} {k : Kind} {v : Value} {rs rs' : List (Nat × Payload)}

/-- A scalar is read from the payload of its record. -/
theorem takes_readScalar (hk : k.Single) (h : Takes (readScalar k) x v) (n : Nat) :
    ∃ p, p.wireType = k.wireType ∧ Takes (readFlat k.wireType) x p ∧
      Takes (readScalar k) (p.body n) v := by
  have hr := h []
  rw [readScalar_eq, Scalar.readKind_eq hk.1 hk.2] at hr
  obtain ⟨⟨s, c⟩, hs, hv⟩ := bind_eq_ok_iff.mp hr
  obtain ⟨rfl, rfl⟩ := Prod.mk.inj (Except.ok.inj hv)
  obtain ⟨⟨p, c⟩, hp, hs⟩ := bind_eq_ok_iff.mp (mapError_eq_ok_iff.mp hs)
  obtain ⟨s', hs', he⟩ := bind_eq_ok_iff.mp hs
  obtain ⟨rfl, rfl⟩ := Prod.mk.inj (Except.ok.inj he)
  have htakes : Takes (readFlat k.wireType) x p := (readFlat_local _).takes hp
  obtain ⟨hw, hflat⟩ := takes_readFlat htakes
  exact ⟨p, hw, htakes, readScalar_takes hk hw hflat hs'⟩

/-- Each record of a group was read by itself. -/
theorem group_records {step : Message → Nat → WireType → Cursor → Except Failure (Message × Cursor)}
    (hstep : ∀ {m n w x m'}, InRange n → Takes (step m n w) x m' → ∃ p : Payload, p.wireType = w ∧
      Takes (Payload.read false depth n w) x p ∧ Takes (step m n w) (p.body n) m')
    (h : Cursor.Group n step m x m') : ∃ rs, Steps step m rs m' ∧ ∀ acc,
      Cursor.Group n (readInto (Payload.read false depth)) acc x (rs.reverse ++ acc) := by
  induction h with
  | stop hk => exact ⟨[], .nil _, fun acc => .stop hk⟩
  | @cons a b c y x z inner w hk hw h _ ih =>
    have hn := inRange_of_key hk
    obtain ⟨p, rfl, hread, hbody⟩ := hstep hn h
    obtain ⟨rs, hsteps, hgroup⟩ := ih
    refine ⟨(inner, p) :: rs, .cons hn hbody hsteps, fun acc => ?_⟩
    rw [List.reverse_cons, List.append_assoc]
    exact .cons hk hw ((takes_readInto (read_local _ _ _ _)).mpr ⟨p, hread, rfl⟩) (hgroup _)

theorem takes_delimited {l : Bytes} (hl : Takes Cursor.readVarint l b.length) (n : Nat) :
    b.length < 2 ^ 64 ∧ Takes (Payload.read false depth n .delimited) (l ++ b) (.delimited b) := by
  refine ⟨Cursor.readVarint_lt (hl []), (takes_read_flat (by simp)).mpr ⟨fun _ => rfl, ?_⟩⟩
  exact fun y => bind_eq_ok_iff.mpr ⟨(b, _), hl.bind (Cursor.take_takes rfl) y, rfl⟩

/-- A reader that gets past a field reads its payload, and makes the same of the payload as it
would be written. -/
theorem exists_payload (hS : S.Regular) (ht : t ∈ S.messages) (hn : InRange n)
    (h : Takes (readField S reading depth t m n w) x m') :
    ∃ p : Payload, p.wireType = w ∧ Takes (Payload.read false depth n w) x p ∧
      Takes (readField S reading depth t m n w) (p.body n) m' := by
  induction depth using Nat.strong_induction_on generalizing t m n w x m' with
  | _ depth ih =>
    simp only [readField_takes_iff]
    cases readField_takes_iff.mp h with
    | unknown hf hread =>
      obtain ⟨rfl, hfits, hread'⟩ := takes_read hread
      exact ⟨_, rfl, hread', .unknown hf (read_takes hn hfits)⟩
    | @known f _ hf haccepts =>
      have hreg := hS.field ht hf
      obtain rfl := Schema.field?_number hf
      have hscalar : ∀ {v}, f.kind.Single → Takes (readScalar f.kind) x v →
          ∃ p : Payload, p.wireType = f.kind.wireType ∧
            Takes (Payload.read false depth f.number f.kind.wireType) x p ∧
              Takes (readScalar f.kind) (p.body f.number) v := by
        intro v hk hv
        obtain ⟨p, hp, hread, hbody⟩ := takes_readScalar hk hv f.number
        exact ⟨p, hp, (takes_read_flat hk.1).mpr ⟨fun _ => rfl, hread⟩, hbody⟩
      cases haccepts with
      | single hk hr hv =>
        obtain ⟨p, hp, hread, hbody⟩ := hscalar hk hv
        exact ⟨p, hp, hread, .known hf (.single hk hr hbody)⟩
      | more hk hr hpack hv =>
        obtain ⟨p, hp, hread, hbody⟩ := hscalar hk hv
        exact ⟨p, hp, hread, .known hf (.more hk hr hpack hbody)⟩
      | @packed l b vs hk hr hpack hl hruns =>
        obtain ⟨hlt, hread⟩ := takes_delimited hl f.number
        exact ⟨.delimited b, rfl, hread,
          .known hf (.packed hk hr hpack (Cursor.readVarint_encode hlt) hruns)⟩
      | @nested _ u step inner hu hs hmakes =>
        have haccepts : ∀ {y}, Makes (step u) f.number (startOf f m) f.kind.wireType y inner →
            Accepts S reading (nestedAt S reading depth) f m f.kind.wireType y
              (putNested S reading u f m inner) := .nested hu hs
        generalize hw : f.kind.wireType = w at hmakes haccepts ⊢
        cases hmakes with
        | delimited hl hruns =>
          obtain ⟨hlt, hread⟩ := takes_delimited hl f.number
          exact ⟨.delimited _, rfl, hread,
            .known hf (haccepts (.delimited (Cursor.readVarint_encode hlt) hruns))⟩
        | group hgroup =>
          have hmap : f.map = false := by
            by_contra hm
            obtain ⟨type, hk⟩ := hreg.kind_of_map (by simpa using hm)
            rw [hk] at hw
            cases hw
          rw [hmap, if_neg Bool.false_ne_true] at hs
          cases depth with
          | zero => cases hs
          | succ d =>
            obtain rfl := Option.some.inj hs
            obtain ⟨rs, hsteps, hread⟩ := group_records
              (ih d (by omega) (Schema.mem_of_messageOf? hu)) hgroup
            refine ⟨.group rs, rfl, takes_read_group.mpr ⟨_, hread [], by simp⟩,
              .known hf (haccepts (.group (group_of_steps hn hsteps)))⟩

/-- The records that stand in some bytes one after the other. -/
inductive Parsed (depth : Nat) : Bytes → List (Nat × Payload) → Prop where
  | nil : Parsed depth [] []
  | cons {k x b : Bytes} {n : Nat} {p : Payload} {rs : List (Nat × Payload)}
      (hk : Takes Cursor.key k (n, p.wireType))
      (hp : Takes (Payload.read false depth n p.wireType) x p) (h : Parsed depth b rs) :
      Parsed depth (k ++ (x ++ b)) ((n, p) :: rs)

theorem Parsed.unique (h : Parsed depth b rs) (h' : Parsed depth b rs') : rs = rs' := by
  induction h generalizing rs' with
  | nil =>
    generalize hb : ([] : Bytes) = b at h'
    cases h' with
    | nil => rfl
    | cons hk _ _ => exact absurd (List.append_eq_nil_iff.mp hb.symm).1 (Cursor.key_ne_nil hk)
  | @cons k x b n p rs hk hp _ ih =>
    generalize hb : k ++ (x ++ b) = bytes at h'
    cases h' with
    | nil => exact absurd (List.append_eq_nil_iff.mp hb).1 (Cursor.key_ne_nil hk)
    | @cons k' x' b' n' p' rs' hk' hp' h' =>
      obtain ⟨-, hkey, hrest⟩ := hk.unique hk' hb
      obtain ⟨rfl, hw⟩ := Prod.mk.inj hkey
      rw [← hw] at hp'
      obtain ⟨-, rfl, rfl⟩ := hp.unique hp' hrest
      rw [ih h']

/-- Whatever a reader makes of bytes, it makes of the records in them. -/
theorem Fills.exists_records (hS : S.Regular) (ht : t ∈ S.messages)
    (h : Fills S reading depth t m b m') :
    ∃ rs, Parsed depth b rs ∧ Steps (readField S reading depth t) m rs m' := by
  induction h with
  | nil => exact ⟨[], .nil, .nil _⟩
  | cons h _ ih =>
    obtain ⟨rs, hparsed, hsteps⟩ := ih
    obtain ⟨k, y, n, w, rfl, hk, htakes⟩ := record_takes_inv (readField_local S reading depth t) h
    have hn := inRange_of_key hk
    obtain ⟨p, rfl, hread, hbody⟩ := exists_payload hS ht hn htakes
    refine ⟨(n, p) :: rs, ?_, .cons hn hbody hsteps⟩
    rw [List.append_assoc]
    exact .cons hk hread hparsed

section Lossless

variable {step other : Message → Nat → WireType → Cursor → Except Failure (Message × Cursor)}
  {y : Bytes}

theorem takes_record (hk : Takes Cursor.key y (n, w)) (h : Takes (step m n w) x m') :
    Takes (record step m) (y ++ x) m' := by
  intro z
  rw [record_eq, List.append_assoc, hk]
  exact h z

/-- Of two messages that are related, the one step makes from the same bytes what is related to what
the other step makes. -/
def Simulates (R : Message → Message → Prop)
    (step other : Message → Nat → WireType → Cursor → Except Failure (Message × Cursor)) : Prop :=
  ∀ m n w x m', Takes (step m n w) x m' → ∀ k, R m k → ∃ k', R m' k' ∧ Takes (other k n w) x k'

theorem Simulates.runs {R : Message → Message → Prop} (ho : Simulates R step other)
    (hl : ∀ m n w, Local (step m n w)) (h : Runs (record step) m b m') :
    ∀ k, R m k → ∃ k', R m' k' ∧ Runs (record other) k b k' := by
  induction h with
  | nil => exact fun k hk => ⟨k, hk, .nil k⟩
  | cons h _ ih =>
    intro k hk
    obtain ⟨key, y, n, w, rfl, hkey, htakes⟩ := record_takes_inv hl h
    obtain ⟨k', hr, hk'⟩ := ho _ _ _ _ _ htakes k hk
    obtain ⟨k'', hr', hruns⟩ := ih k' hr
    exact ⟨k'', hr', .cons (takes_record hkey hk') hruns⟩

theorem Simulates.makes {R : Message → Message → Prop} (ho : Simulates R step other)
    (hl : ∀ m n w, Local (step m n w)) (h : Makes step n m w x m') (k : Message) (hk : R m k) :
    ∃ k', R m' k' ∧ Makes other n k w x k' := by
  cases h with
  | delimited hlen h =>
    obtain ⟨k', hr, hruns⟩ := ho.runs hl h k hk
    exact ⟨k', hr, .delimited hlen hruns⟩
  | group h =>
    suffices hgroup : ∀ k, R m k → ∃ k', R m' k' ∧ Cursor.Group n other k x k' by
      obtain ⟨k', hr, hk'⟩ := hgroup k hk
      exact ⟨k', hr, .group hk'⟩
    clear hk k
    induction h with
    | stop hstop => exact fun k hk => ⟨k, hk, .stop hstop⟩
    | cons hkey hw h _ ih =>
      intro k hk
      obtain ⟨k', hr, hk'⟩ := ho _ _ _ _ _ h k hk
      obtain ⟨k'', hr', hgroup⟩ := ih k' hr
      exact ⟨k'', hr', .cons hkey hw hk' hgroup⟩

/-- The other step gets past all that the one gets past, wherever it starts. -/
def Outreads (step other : Message → Nat → WireType → Cursor → Except Failure (Message × Cursor)) :
    Prop :=
  ∀ m n w x m', Takes (step m n w) x m' → ∀ k, ∃ k', Takes (other k n w) x k'

theorem Outreads.simulates (ho : Outreads step other) : Simulates (fun _ _ => True) step other := by
  intro m n w x m' h k _
  obtain ⟨k', hk'⟩ := ho m n w x m' h k
  exact ⟨k', trivial, hk'⟩

theorem Outreads.runs (ho : Outreads step other) (hl : ∀ m n w, Local (step m n w))
    (h : Runs (record step) m b m') (k : Message) : ∃ k', Runs (record other) k b k' := by
  obtain ⟨k', -, hk'⟩ := ho.simulates.runs hl h k trivial
  exact ⟨k', hk'⟩

theorem Outreads.makes (ho : Outreads step other) (hl : ∀ m n w, Local (step m n w))
    (h : Makes step n m w x m') (k : Message) : ∃ k', Makes other n k w x k' := by
  obtain ⟨k', -, hk'⟩ := ho.simulates.makes hl h k trivial
  exact ⟨k', hk'⟩

/-- A lossless reader gets past whatever a typed one gets past, where there are no maps. -/
theorem outreads_lossless (hmap : ∀ {t f n}, t ∈ S.messages → S.field? t n = some f → f.map = false)
    (ht : t ∈ S.messages) :
    Outreads (readField S .typed depth t) (readField S .lossless depth t) := by
  induction depth using Nat.strong_induction_on generalizing t with
  | _ depth ih =>
    intro m n w x m' h k
    simp only [readField_takes_iff] at h ⊢
    cases h with
    | @unknown p hf h =>
      refine ⟨_, .unknown (p := p) hf ?_⟩
      cases t.mapEntry with
      | true => exact h
      | false => exact (takes_read h).2.2
    | @known f _ hf haccepts =>
      suffices hk : ∃ k', Accepts S .lossless (nestedAt S .lossless depth) f k w x k' by
        obtain ⟨k', hk⟩ := hk
        exact ⟨k', .known hf hk⟩
      cases haccepts with
      | single hk hr hv => exact ⟨_, .single hk hr hv⟩
      | more hk hr hpack hv => exact ⟨_, .more hk hr hpack hv⟩
      | packed hk hr hpack hl hruns => exact ⟨_, .packed hk hr hpack hl hruns⟩
      | @nested _ u step inner hu hs hmakes =>
        rw [hmap ht hf, if_neg Bool.false_ne_true] at hs
        cases depth with
        | zero => cases hs
        | succ d =>
          obtain rfl := Option.some.inj hs
          obtain ⟨inner', hmakes'⟩ := (ih d (by omega) (Schema.mem_of_messageOf? hu)).makes
            (readField_local S .typed d u) hmakes (startOf f k)
          exact ⟨_, .nested hu (by rw [hmap ht hf]; rfl) hmakes'⟩

end Lossless

end Message
end DescriptorKit
