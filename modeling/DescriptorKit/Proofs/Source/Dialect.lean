import DescriptorKit.Proofs.Text.Span
import DescriptorKit.Source.Dialect
import Mathlib.Data.List.TakeWhile

/-!
Which sources say what version of the language they are in, told as a grammar: byte-order marks,
then blanks and comments in any order, then one of two words. However a source is read so, its word
starts where the search for it ends.
-/
namespace DescriptorKit.Source
open Text

variable {c : Char} {cs mark body rest rest' item start stop : List Char} {items : List (List Char)}

/-- How each kind of comment starts and ends. -/
def commentMarks : List (List Char × List Char) :=
  [(['/', '/'], ['\n']), (['/', '*'], ['*', '/'])]

/-- A mark that comes behind the text has not come before. -/
def ComesFirst (mark body : List Char) : Prop :=
  ∀ front back, body ++ mark = front ++ (mark ++ back) → back = []

/-- What may stand in front of the first word. -/
inductive Item : List Char → Prop where
  | blank {c : Char} (h : isBlank c = true) : Item [c]
  | comment {start stop body : List Char} (hm : (start, stop) ∈ commentMarks)
    (h : ComesFirst stop body) : Item (start ++ (body ++ stop))

/-- `[A-Za-z0-9_]` -/
def wordChars : List Char := alphanumerics ++ ['_']

/-- The words that a version is said with. -/
def IsKeyword (word : List Char) : Prop := word = "syntax".toList ∨ word = "edition".toList

/-- Behind byte-order marks and items comes one of the two words, and not as the start of
another. -/
def Declares (source : List Char) : Prop :=
  ∃ (marks : List Char) (items : List (List Char)) (word rest : List Char),
    source = marks ++ (items.flatten ++ (word ++ rest)) ∧
    (∀ c ∈ marks, c = byteOrderMark) ∧ (∀ item ∈ items, Item item) ∧
    IsKeyword word ∧ ∀ c ∈ rest.head?, c ∉ wordChars

section Marks

/-- What follows the first mark, nothing if there is none. -/
def after (mark : List Char) : List Char → List Char
  | [] => []
  | c :: cs => if mark <+: c :: cs then (c :: cs).drop mark.length else after mark cs

theorem afterLine_eq : afterLine cs = after ['\n'] cs := by
  fun_induction afterLine cs with
  | case1 => rfl
  | case2 rest => simp [after]
  | case3 c rest hc ih =>
    have hc : c ≠ '\n' := fun he => hc he
    simp [after, ih, hc.symm]

theorem afterBlock_eq : afterBlock cs = after ['*', '/'] cs := by
  fun_induction afterBlock cs with
  | case1 => rfl
  | case2 rest => simp [after]
  | case3 c rest hc ih =>
    have hn : ¬ ['*', '/'] <+: c :: rest := by
      rintro ⟨rest', he⟩
      obtain ⟨hstar, hslash⟩ := List.cons.inj he
      exact hc rest' hstar.symm hslash.symm
    rw [after, if_neg hn, ih]

theorem length_after_le (mark cs : List Char) : (after mark cs).length ≤ cs.length := by
  induction cs with
  | nil => exact le_rfl
  | cons c cs ih =>
    rw [after]
    split
    · simp
    · exact ih.trans (Nat.le_succ _)

theorem comesFirst_nil : ComesFirst mark [] := by
  intro front back he
  have := congrArg List.length he
  simp only [List.nil_append, List.length_append] at this
  exact List.length_eq_zero_iff.mp (by omega)

theorem comesFirst_cons : ComesFirst mark (c :: body) ↔
    ComesFirst mark body ∧ ¬ mark <+: c :: (body ++ mark) := by
  constructor
  · intro h
    refine ⟨fun front back he => h (c :: front) back (by simp [he]), ?_⟩
    rintro ⟨back, he⟩
    obtain rfl := h [] back he.symm
    have := congrArg List.length he
    simp only [List.length_append, List.length_cons, List.length_nil] at this
    omega
  · rintro ⟨h, hn⟩ front back he
    cases front with
    | nil => exact absurd ⟨back, he.symm⟩ hn
    | cons d front => exact h front back (List.cons.inj he).2

theorem after_append (hm : mark ≠ []) (h : ComesFirst mark body) :
    after mark (body ++ (mark ++ rest)) = rest := by
  induction body with
  | nil =>
    obtain ⟨c, mark, rfl⟩ := List.exists_cons_of_ne_nil hm
    simp [after]
  | cons c body ih =>
    obtain ⟨h, hn⟩ := comesFirst_cons.mp h
    have hn : ¬ mark <+: c :: (body ++ (mark ++ rest)) := by
      intro hp
      refine hn (List.prefix_of_prefix_length_le hp ⟨rest, by simp⟩ ?_)
      simp only [List.length_cons, List.length_append]
      omega
    rw [List.cons_append, after, if_neg hn, ih h]

theorem after_cases (mark cs : List Char) : after mark cs = [] ∨
    ∃ body, ComesFirst mark body ∧ cs = body ++ (mark ++ after mark cs) := by
  induction cs with
  | nil => exact .inl rfl
  | cons c cs ih =>
    rw [after]
    split
    · rename_i hp
      obtain ⟨rest, he⟩ := hp
      exact .inr ⟨[], comesFirst_nil, by simp [← he]⟩
    · rename_i hn
      refine ih.imp_right fun ⟨body, hbody, he⟩ => ⟨c :: body, ?_, by rw [List.cons_append, ← he]⟩
      refine comesFirst_cons.mpr ⟨hbody, fun hp => hn (hp.trans ?_)⟩
      exact ⟨after mark cs, by rw [List.cons_append, List.append_assoc, ← he]⟩

end Marks

section Search

theorem mem_commentMarks : (start, stop) ∈ commentMarks ↔
    start = ['/', '/'] ∧ stop = ['\n'] ∨ start = ['/', '*'] ∧ stop = ['*', '/'] := by
  simp [commentMarks]

/-- A way through the search for the first word, and where it ends. Each turn drops blanks, and then
goes on behind a comment if there is one. -/
inductive Skips : List Char → List Char → Prop where
  | stop {cs : List Char} (h : ∀ m ∈ commentMarks, ¬ m.1 <+: cs.dropWhile isBlank) :
    Skips cs (cs.dropWhile isBlank)
  | comment {cs start stop comment rest : List Char} (hm : (start, stop) ∈ commentMarks)
    (h : cs.dropWhile isBlank = start ++ comment) (hs : Skips (after stop comment) rest) :
    Skips cs rest

theorem skipWithin_skips {fuel : Nat} (hf : cs.length < fuel) : Skips cs (skipWithin fuel cs) := by
  induction fuel generalizing cs with
  | zero => omega
  | succ fuel ih =>
    have hle := (List.dropWhile_suffix isBlank (l := cs)).length_le
    have hgo : ∀ start stop comment : List Char, (start, stop) ∈ commentMarks →
        cs.dropWhile isBlank = start ++ comment → start.length = 2 →
        Skips cs (skipWithin fuel (after stop comment)) := by
      intro start stop comment hm he hstart
      have := length_after_le stop comment
      rw [he, List.length_append] at hle
      exact .comment hm he (ih (by omega))
    rw [skipWithin]
    split
    · rename_i comment he
      rw [afterLine_eq]
      exact hgo ['/', '/'] _ comment (mem_commentMarks.mpr (.inl ⟨rfl, rfl⟩)) he rfl
    · rename_i comment he
      rw [afterBlock_eq]
      exact hgo ['/', '*'] _ comment (mem_commentMarks.mpr (.inr ⟨rfl, rfl⟩)) he rfl
    · rename_i hline hblock
      refine .stop ?_
      rintro ⟨start, stop⟩ hm ⟨comment, he⟩
      rcases mem_commentMarks.mp hm with ⟨rfl, -⟩ | ⟨rfl, -⟩
      · exact hline comment he.symm
      · exact hblock comment he.symm

/-- The search comes to an end. -/
theorem skipIgnored_skips (cs : List Char) : Skips cs (skipIgnored cs) :=
  skipWithin_skips (Nat.lt_succ_self _)

theorem eq_of_commentMarks {start' stop' comment comment' : List Char}
    (hm : (start, stop) ∈ commentMarks) (hm' : (start', stop') ∈ commentMarks)
    (he : start ++ comment = start' ++ comment') : stop = stop' ∧ comment = comment' := by
  rcases mem_commentMarks.mp hm with ⟨rfl, rfl⟩ | ⟨rfl, rfl⟩ <;>
    rcases mem_commentMarks.mp hm' with ⟨rfl, rfl⟩ | ⟨rfl, rfl⟩ <;> simp_all

theorem Skips.unique (h : Skips cs rest) (h' : Skips cs rest') : rest = rest' := by
  induction h with
  | stop hn =>
    cases h' with
    | stop => rfl
    | comment hm he hs => exact absurd ⟨_, he.symm⟩ (hn _ hm)
  | comment hm he hs ih =>
    cases h' with
    | stop hn => exact absurd ⟨_, he.symm⟩ (hn _ hm)
    | comment hm' he' hs' =>
      obtain ⟨rfl, rfl⟩ := eq_of_commentMarks hm hm' (he.symm.trans he')
      exact ih hs'

theorem skips_iff : Skips cs rest ↔ rest = skipIgnored cs := by
  constructor
  · intro h
    exact h.unique (skipIgnored_skips cs)
  · rintro rfl
    exact skipIgnored_skips cs

/-- What was skipped are items, unless there is nothing behind them. -/
theorem Skips.exists_items (h : Skips cs rest) :
    rest = [] ∨ ∃ items : List (List Char),
    (∀ item ∈ items, Item item) ∧ cs = items.flatten ++ rest := by
  have hblank : ∀ cs : List Char, ∃ items : List (List Char), (∀ item ∈ items, Item item) ∧
      cs = items.flatten ++ cs.dropWhile isBlank := by
    intro cs
    refine ⟨(cs.takeWhile isBlank).map fun c => [c], ?_, ?_⟩
    · intro item hitem
      obtain ⟨c, hc, rfl⟩ := List.mem_map.mp hitem
      exact .blank (List.mem_takeWhile_imp hc)
    · rw [← List.flatMap_def, List.flatMap_singleton', List.takeWhile_append_dropWhile]
  induction h with
  | @stop cs _ => exact .inr (hblank cs)
  | @comment cs start stop comment rest hm he hs ih =>
    rcases ih with hnil | ⟨items, hitems, hrest⟩
    · exact .inl hnil
    · rcases after_cases stop comment with hend | ⟨body, hbody, hcomment⟩
      · left
        rw [hend] at hrest
        exact (List.append_eq_nil_iff.mp hrest.symm).2
      · right
        obtain ⟨blanks, hblanks, hcs⟩ := hblank cs
        refine ⟨blanks ++ (start ++ (body ++ stop)) :: items, ?_, ?_⟩
        · intro item hitem
          rcases List.mem_append.mp hitem with hitem | hitem
          · exact hblanks item hitem
          · rcases List.mem_cons.mp hitem with rfl | hitem
            · exact .comment hm hbody
            · exact hitems item hitem
        · rw [hcs, he, hcomment, hrest]
          simp

theorem dropWhile_comment (hm : (start, stop) ∈ commentMarks) (cs : List Char) :
    (start ++ cs).dropWhile isBlank = start ++ cs := by
  rcases mem_commentMarks.mp hm with ⟨rfl, -⟩ | ⟨rfl, -⟩
  · exact List.dropWhile_cons_of_neg (by decide)
  · exact List.dropWhile_cons_of_neg (by decide)

/-- The search goes on behind an item as if it had started there. -/
theorem Skips.append_item (h : Skips cs rest) (hi : Item item) : Skips (item ++ cs) rest := by
  cases hi with
  | @blank c hc =>
    have hdrop : ([c] ++ cs).dropWhile isBlank = cs.dropWhile isBlank :=
      List.dropWhile_cons_of_pos hc
    cases h with
    | stop hn =>
      rw [← hdrop] at hn ⊢
      exact .stop hn
    | comment hm he hs => exact .comment hm (hdrop.trans he) hs
  | @comment start stop body hm hfirst =>
    have hne : stop ≠ [] := by
      rcases mem_commentMarks.mp hm with ⟨-, rfl⟩ | ⟨-, rfl⟩ <;> simp
    have hdrop := dropWhile_comment hm (body ++ (stop ++ cs))
    rw [List.append_assoc, List.append_assoc]
    exact .comment hm hdrop (by rwa [after_append hne hfirst])

theorem Skips.append_items (h : Skips cs rest) (hi : ∀ item ∈ items, Item item) :
    Skips (items.flatten ++ cs) rest := by
  induction items with
  | nil => exact h
  | cons item items ih =>
    obtain ⟨hitem, hitems⟩ := List.forall_mem_cons.mp hi
    rw [List.flatten_cons, List.append_assoc]
    exact (ih hitems).append_item hitem

end Search

section Word

variable {word : List Char} {p : Char → Bool}

theorem isWordChar_iff : isWordChar c = true ↔ c ∈ wordChars := by
  simp [isWordChar, wordChars, isAlphanum_iff]

theorem takeWhile_eq_iff (hw : ∀ c ∈ word, p c = true) :
    cs.takeWhile p = word ↔ ∃ rest, cs = word ++ rest ∧ ∀ c ∈ rest.head?, p c = false := by
  constructor
  · rintro rfl
    refine ⟨cs.dropWhile p, List.takeWhile_append_dropWhile.symm, fun c hc => ?_⟩
    have hhead := List.head?_dropWhile_not p cs
    rwa [hc] at hhead
  · rintro ⟨rest, rfl, hrest⟩
    have hstop : rest.takeWhile p = [] := by
      cases rest with
      | nil => rfl
      | cons d rest => exact List.takeWhile_cons_of_neg (by simp [hrest d rfl])
    rw [List.takeWhile_append_of_pos hw, hstop, List.append_nil]

theorem IsKeyword.isWordChar (h : IsKeyword word) : ∀ c ∈ word, isWordChar c = true := by
  rw [← List.all_eq_true]
  rcases h with rfl | rfl <;> rfl

/-- The search stops in front of a keyword. -/
theorem IsKeyword.skips (h : IsKeyword word) : Skips (word ++ rest) (word ++ rest) := by
  have hdrop : (word ++ rest).dropWhile isBlank = word ++ rest := by
    rcases h with rfl | rfl <;> exact List.dropWhile_cons_of_neg (by decide)
  have hstop : ∀ m ∈ commentMarks, ¬ m.1 <+: (word ++ rest).dropWhile isBlank := by
    rw [hdrop]
    rintro ⟨start, stop⟩ hm ⟨comment, he⟩
    rcases mem_commentMarks.mp hm with ⟨rfl, -⟩ | ⟨rfl, -⟩ <;> rcases h with rfl | rfl <;> cases he
  have hskips := Skips.stop hstop
  rwa [hdrop] at hskips

/-- Marks are dropped as far as they go, for neither items nor keywords start with one. -/
theorem dropWhile_marks {marks : List Char} (hm : ∀ c ∈ marks, c = byteOrderMark)
    (hi : ∀ item ∈ items, Item item) (hw : IsKeyword word) :
    (marks ++ (items.flatten ++ (word ++ rest))).dropWhile (· = byteOrderMark) =
      items.flatten ++ (word ++ rest) := by
  rw [List.dropWhile_append_of_pos fun c hc => by simpa using hm c hc]
  cases items with
  | nil => rcases hw with rfl | rfl <;> exact List.dropWhile_cons_of_neg (by decide)
  | cons item items =>
    rw [List.flatten_cons, List.append_assoc]
    cases hi item List.mem_cons_self with
    | @blank c hc =>
      refine List.dropWhile_cons_of_neg fun hmark => ?_
      rw [of_decide_eq_true hmark] at hc
      exact absurd hc (by decide)
    | comment hm _ =>
      rcases mem_commentMarks.mp hm with ⟨rfl, -⟩ | ⟨rfl, -⟩ <;>
        exact List.dropWhile_cons_of_neg (by decide)

end Word

/-- A source says what version it is in just if it is one by the grammar, and the search for its
first word comes to an end in whatever source. -/
theorem declaresDialect_exact :
    (∀ source, declaresDialect source = true ↔ Declares source.toList) ∧
    ∀ cs rest, Skips cs rest ↔ rest = skipIgnored cs := by
  refine ⟨fun source => ?_, fun cs rest => skips_iff⟩
  have htold : declaresDialect source = true ↔ IsKeyword
      ((skipIgnored (source.toList.dropWhile (· = byteOrderMark))).takeWhile isWordChar) := by
    unfold declaresDialect IsKeyword
    rw [Bool.or_eq_true, decide_eq_true_eq, decide_eq_true_eq]
  rw [htold]
  constructor
  · intro hword
    obtain ⟨rest, hrest, hhead⟩ := (takeWhile_eq_iff hword.isWordChar).mp rfl
    have hne : skipIgnored (source.toList.dropWhile (· = byteOrderMark)) ≠ [] := by
      intro hnil
      rw [hnil] at hword
      rcases hword with h | h <;> cases h
    obtain ⟨items, hitems, hcs⟩ := (skipIgnored_skips _).exists_items.resolve_left hne
    refine ⟨source.toList.takeWhile (· = byteOrderMark), items, _, rest, ?_, ?_, hitems, hword, ?_⟩
    · rw [← hrest, ← hcs, List.takeWhile_append_dropWhile]
    · intro c hc
      simpa using List.mem_takeWhile_imp hc
    · intro c hc
      rw [← isWordChar_iff, hhead c hc]
      exact Bool.false_ne_true
  · rintro ⟨marks, items, word, rest, hsource, hmarks, hitems, hword, hrest⟩
    have hskips : Skips (items.flatten ++ (word ++ rest)) (word ++ rest) :=
      (IsKeyword.skips hword).append_items hitems
    have hhead : ∀ c ∈ rest.head?, isWordChar c = false := fun c hc =>
      Bool.eq_false_iff.mpr (mt isWordChar_iff.mp (hrest c hc))
    rw [hsource, dropWhile_marks hmarks hitems hword, ← skips_iff.mp hskips,
      (takeWhile_eq_iff hword.isWordChar).mpr ⟨rest, rfl, hhead⟩]
    exact hword

end DescriptorKit.Source
