import DescriptorKit.Proofs.Message.Parsed

/-!
Readers that may go deeper. What a reader makes of some bytes, a reader that may nest messages and
groups deeper makes of them too.
-/
namespace DescriptorKit
open Wire Payload

namespace Wire.Payload

variable {strict : Bool} {depth n : Nat} {w : WireType} {x : Bytes} {p : Payload}
  {acc acc' : List (Nat × Payload)}

theorem group_deeper
    (hin : ∀ {n w x p}, Takes (read strict depth n w) x p → Takes (read strict (depth + 1) n w) x p)
    (h : Cursor.Group n (readInto (read strict depth)) acc x acc') :
    Cursor.Group n (readInto (read strict (depth + 1))) acc x acc' := by
  induction h with
  | stop hk => exact .stop hk
  | cons hk hw h _ ih =>
    obtain ⟨p, hp, rfl⟩ := (takes_readInto (read_local _ _ _ _)).mp h
    exact .cons hk hw ((takes_readInto (read_local _ _ _ _)).mpr ⟨p, hin hp, rfl⟩) ih

theorem takes_read_deeper (h : Takes (read strict depth n w) x p) :
    Takes (read strict (depth + 1) n w) x p := by
  induction depth generalizing n w x p with
  | zero =>
    by_cases hw : w = .startGroup
    · have hr := h []
      rw [read_zero, if_pos (by simp [hw])] at hr
      cases hr
    · exact (takes_read_flat hw).mpr ⟨by simp, ((takes_read_flat hw).mp h).2⟩
  | succ depth ih =>
    by_cases hw : w = .startGroup
    · subst hw
      obtain ⟨acc, hgroup, rfl⟩ := takes_read_group.mp h
      exact takes_read_group.mpr ⟨acc, group_deeper ih hgroup, rfl⟩
    · exact (takes_read_flat hw).mpr ⟨by simp, ((takes_read_flat hw).mp h).2⟩

end Wire.Payload

namespace Message

variable {S : Schema} {reading : Reading} {t : MessageType} {f : Field} {m m' : Message}
  {nested other : Nested} {n depth : Nat} {w : WireType} {x : Bytes}

/-- The other step reads all that the one reads, and makes the same of it. -/
def StepExtends (step other : Step) : Prop := ∀ t, Simulates (· = ·) (step t) (other t)

/-- The other steps for messages in fields read all that the ones read. -/
structure Nested.Extends (nested other : Nested) : Prop where
  message : ∀ s, nested.message = some s → ∃ s', other.message = some s' ∧ StepExtends s s'
  entry : ∀ s, nested.entry = some s → ∃ s', other.entry = some s' ∧ StepExtends s s'

theorem Nested.Extends.choose (h : nested.Extends other) (b : Bool) :
    ∀ s, (if b then nested.entry else nested.message) = some s →
      ∃ s', (if b then other.entry else other.message) = some s' ∧ StepExtends s s' := by
  cases b
  · exact h.message
  · exact h.entry

theorem Accepts.extends (hn : nested.Good) (he : nested.Extends other)
    (h : Accepts S reading nested f m w x m') : Accepts S reading other f m w x m' := by
  cases h with
  | single hk hr h => exact .single hk hr h
  | more hk hr hp h => exact .more hk hr hp h
  | packed hk hr hp hl h => exact .packed hk hr hp hl h
  | @nested _ t step inner ht hs h =>
    obtain ⟨step', hs', hstep⟩ := he.choose f.map step hs
    obtain ⟨inner', rfl, hmakes⟩ :=
      (hstep t).makes (hn.local f.map step hs t) h (startOf f m) rfl
    exact .nested ht hs' hmakes

theorem readFieldWith_extends (hn : nested.Good) (he : nested.Extends other) :
    StepExtends (readFieldWith S reading depth nested)
      (readFieldWith S reading (depth + 1) other) := by
  rintro t m n w x m' h k rfl
  obtain ⟨x', y, hb, hc, hr⟩ := readFieldWith_inv hn (h [])
  obtain rfl := ofBytes_inj hc
  obtain rfl := List.append_cancel_right hb
  refine ⟨m', rfl, readFieldWith_takes ?_⟩
  cases hr with
  | known hf haccepts => exact .known hf (haccepts.extends hn he)
  | unknown hf hread => exact .unknown hf (takes_read_deeper hread)

theorem nestedAt_extends (S : Schema) (reading : Reading) (depth : Nat) :
    (nestedAt S reading depth).Extends (nestedAt S reading (depth + 1)) := by
  induction depth with
  | zero =>
    refine ⟨by simp [nestedAt], fun s hs => ?_⟩
    obtain rfl := Option.some.inj hs
    exact ⟨_, rfl, readFieldWith_extends ⟨by simp, by simp, by simp, by simp⟩ ⟨by simp, by simp⟩⟩
  | succ d ih =>
    have hstep : StepExtends (readField S reading d) (readField S reading (d + 1)) := by
      rw [readField_eq, readField_eq]
      exact readFieldWith_extends (nestedAt_good S reading d) ih
    have hone : ∀ s, some (readField S reading d) = some s →
        ∃ s', some (readField S reading (d + 1)) = some s' ∧ StepExtends s s' := by
      intro s hs
      obtain rfl := Option.some.inj hs
      exact ⟨_, rfl, hstep⟩
    refine ⟨hone, fun s hs => ?_⟩
    obtain rfl := Option.some.inj hs
    have hl := readField_local S reading d
    have he := readField_ends S reading d
    refine ⟨_, rfl, readFieldWith_extends ⟨?_, ?_, ?_, ?_⟩ ⟨hone, hone⟩⟩
    all_goals
      intro s hs
      obtain rfl := Option.some.inj hs
      assumption

/-- What a reader makes of some bytes, one that may go deeper makes of them too. -/
theorem Fills.deeper {b : Bytes} (h : Fills S reading depth t m b m') :
    Fills S reading (depth + 1) t m b m' := by
  have hstep : StepExtends (readField S reading depth) (readField S reading (depth + 1)) := by
    rw [readField_eq, readField_eq]
    exact readFieldWith_extends (nestedAt_good S reading depth) (nestedAt_extends S reading depth)
  obtain ⟨m'', rfl, hruns⟩ := (hstep t).runs (readField_local S reading depth t) h m rfl
  exact hruns

theorem Fills.deeper_le {b : Bytes} {other : Nat} (h : Fills S reading depth t m b m')
    (hd : depth ≤ other) : Fills S reading other t m b m' := by
  induction other, hd using Nat.le_induction with
  | base => exact h
  | succ other _ ih => exact ih.deeper

end Message
end DescriptorKit
