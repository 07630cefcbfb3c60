import DescriptorKit.Message.Decode
import DescriptorKit.Text.Format.Message

/-!
Schemas that find the same. Nothing that is done with a schema depends on the order in which it
lists what it declares, only on what it finds under a name or a number.
-/
namespace DescriptorKit

namespace Schema

/-- Under every name and every number both schemas find the same. -/
structure Agrees (S T : Schema) : Prop where
  message : T.message? = S.message?
  enum : T.enum? = S.enum?
  extension : T.extension? = S.extension?
  named : T.extensionNamed? = S.extensionNamed?

variable {S T : Schema}

theorem Agrees.field? (h : S.Agrees T) : T.field? = S.field? := by
  funext t n
  rw [Schema.field?, Schema.field?, h.extension]

theorem Agrees.messageOf? (h : S.Agrees T) : T.messageOf? = S.messageOf? := by
  funext f
  rw [Schema.messageOf?, Schema.messageOf?, h.message]

theorem Agrees.default (h : S.Agrees T) : T.default = S.default := by
  funext f
  simp only [Schema.default, scalarDefault?, h.enum]

end Schema

variable {S T : Schema}

namespace Message

theorem get_congr (h : S.Agrees T) : Message.get T = Message.get S := by
  funext f m
  rw [Message.get, Message.get, h.default]

theorem add_congr (h : S.Agrees T) : Message.add T = Message.add S := by
  funext f v m
  simp only [add, entrySlots, h.messageOf?, get_congr h]

theorem fillRequired_congr (h : S.Agrees T) : fillRequired T = fillRequired S := by
  funext t m
  simp only [fillRequired, h.default]

theorem readKnown_congr (h : S.Agrees T) : readKnown T = readKnown S := by
  funext reading nested f m w c
  simp only [readKnown, h.message, add_congr h, fillRequired_congr h]

theorem readFieldWith_congr (h : S.Agrees T) : readFieldWith T = readFieldWith S := by
  funext reading depth nested t m number w c
  simp only [readFieldWith, h.field?, readKnown_congr h]

theorem readLevel_congr (h : S.Agrees T) : readLevel T = readLevel S := by
  funext reading depth message
  rw [readLevel, readLevel, readFieldWith_congr h]

theorem readField_congr (h : S.Agrees T) (reading : Reading) (depth : Nat) :
    readField T reading depth = readField S reading depth := by
  induction depth with
  | zero => rw [readField, readField, readLevel_congr h]
  | succ depth ih => rw [readField, readField, readLevel_congr h, ih]

/-- Schemas that agree read the same messages. -/
theorem decode_congr (h : S.Agrees T) : Message.decode T = Message.decode S := by
  funext reading t bytes
  simp only [Message.decode, readField_congr h, fillRequired_congr h]

end Message

namespace Text.Format

theorem groupName_congr (h : S.Agrees T) : groupName? T = groupName? S := by
  funext f
  rw [groupName?, groupName?, h.message]

theorem nodeName_congr (h : S.Agrees T) : NodeName.field? T = NodeName.field? S := by
  funext t name
  cases name with
  | plain s => rw [NodeName.field?, NodeName.field?, groupName_congr h]
  | extension name => rw [NodeName.field?, NodeName.field?, h.named]
  | address host type => rfl

theorem atom_congr (h : S.Agrees T) : Atom.value? T = Atom.value? S := by
  funext f a
  rw [Atom.value?, Atom.value?, h.enum]

theorem put_congr (h : S.Agrees T) : put? T = put? S := by
  funext f v m
  rw [put?, put?, Message.add_congr h]

mutual

theorem value_congr (h : S.Agrees T) (f : Field) :
    ∀ v : Node, Node.value? T f v = Node.value? S f v
  | .atom a => by rw [Node.value?, Node.value?, atom_congr h]
  | .message fs => by
    rw [Node.value?, Node.value?, h.messageOf?]
    simp only [message_congr h _ _ fs]

theorem addAll_congr (h : S.Agrees T) (f : Field) (m : Message) :
    ∀ vs : List Node, Node.addAll? T f m vs = Node.addAll? S f m vs
  | [] => by rw [Node.addAll?, Node.addAll?]
  | v :: rest => by
    rw [Node.addAll?, Node.addAll?, value_congr h f v, Message.add_congr h]
    simp only [addAll_congr h f _ rest]

theorem message_congr (h : S.Agrees T) (t : MessageType) (m : Message) :
    ∀ fs : List NodeField, NodeField.message? T t m fs = NodeField.message? S t m fs
  | [] => by rw [NodeField.message?, NodeField.message?]
  | .one (.address host type) (.message fs) :: rest => by
    rw [NodeField.message?, NodeField.message?, h.message]
    simp only [message_congr h _ _ fs, message_congr h t _ rest]
  | .one (.plain s) v :: rest => by
    simp only [NodeField.message?, nodeName_congr h, put_congr h, value_congr h _ v,
      message_congr h t _ rest]
  | .one (.extension s) v :: rest => by
    simp only [NodeField.message?, nodeName_congr h, put_congr h, value_congr h _ v,
      message_congr h t _ rest]
  | .one (.address host type) (.atom a) :: rest => by
    simp only [NodeField.message?, NodeName.field?]
  | .list name vs :: rest => by
    rw [NodeField.message?, NodeField.message?, nodeName_congr h]
    simp only [addAll_congr h _ _ vs, message_congr h t _ rest]

end

/-- Schemas that agree read the same texts. -/
theorem text_congr (h : S.Agrees T) : message? T = message? S := by
  funext t text
  have hall := funext fun fs => message_congr h t [] fs
  rw [message?, message?, hall]

end Text.Format
end DescriptorKit
