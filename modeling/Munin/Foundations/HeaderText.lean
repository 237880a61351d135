import Munin.Foundations.Utf16Text

/-!
# Structured header fields

The words of a structured header field are set apart by blanks. A word may have quoted strings in
it, in which any text can be written, and comments may stand between parentheses outside of those.

* **`QuotedBody`**, **`CommentBody`** — what stands between the quotes, for a text, and between the
  parentheses. Every text can be written there (`quotedBody_escapeQuoted`,
  `commentBody_escapeComment`).
* **`WithComments`** — a field with comments put in.
* **`Unbroken`** — a text whose separators all stand in quoted strings.
* **`WordsApart`**, **`Segment`** — words with blanks between them, and around them; trimming removes
  the ones around (`Segment.trim`).
-/

namespace Foundations

/-- The content of a quoted string: the text, and how it is written between the quotes. A backslash
says that the unit behind it is meant, which a quote and a backslash need. -/
inductive QuotedBody : Utf16Text → Utf16Text → Prop
  | nil : QuotedBody [] []
  | plain {u : ℕ} {text body : Utf16Text} (hu : u ≠ 0x22 ∧ u ≠ 0x5c)
      (h : QuotedBody text body) : QuotedBody (u :: text) (u :: body)
  | escaped {text body : Utf16Text} (u : ℕ) (h : QuotedBody text body) :
      QuotedBody (u :: text) (0x5c :: u :: body)

/-- The content of a comment, as it is written: its parentheses are in pairs or have a backslash
before them. -/
inductive CommentBody : Utf16Text → Prop
  | nil : CommentBody []
  | plain {u : ℕ} {rest : Utf16Text} (hu : u ≠ 0x28 ∧ u ≠ 0x29 ∧ u ≠ 0x5c)
      (h : CommentBody rest) : CommentBody (u :: rest)
  | escaped {rest : Utf16Text} (u : ℕ) (h : CommentBody rest) : CommentBody (0x5c :: u :: rest)
  | nested {inner rest : Utf16Text} (hinner : CommentBody inner) (h : CommentBody rest) :
      CommentBody (0x28 :: inner ++ 0x29 :: rest)

/-- A field without comments, and the field with comments put in outside of quoted strings. -/
inductive WithComments : Utf16Text → Utf16Text → Prop
  | nil : WithComments [] []
  | comment {inner text field : Utf16Text} (hinner : CommentBody inner)
      (h : WithComments text field) : WithComments text (0x28 :: inner ++ 0x29 :: field)
  | plain {u : ℕ} {text field : Utf16Text} (hu : u ≠ 0x22 ∧ u ≠ 0x28 ∧ u ≠ 0x29)
      (h : WithComments text field) : WithComments (u :: text) (u :: field)
  | quoted {value body text field : Utf16Text} (hbody : QuotedBody value body)
      (h : WithComments text field) :
      WithComments (0x22 :: body ++ 0x22 :: text) (0x22 :: body ++ 0x22 :: field)

/-- A text in which separators stand in quoted strings only. -/
inductive Unbroken (isSeparator : ℕ → Bool) : Utf16Text → Prop
  | nil : Unbroken isSeparator []
  | plain {u : ℕ} {text : Utf16Text} (hu : u ≠ 0x22 ∧ isSeparator u = false)
      (h : Unbroken isSeparator text) : Unbroken isSeparator (u :: text)
  | quoted {value body text : Utf16Text} (hbody : QuotedBody value body)
      (h : Unbroken isSeparator text) : Unbroken isSeparator (0x22 :: body ++ 0x22 :: text)

/-- Some words with blanks between each two. -/
inductive WordsApart : List Utf16Text → Utf16Text → Prop
  | one (word : Utf16Text) : WordsApart [word] word
  | cons {words : List Utf16Text} {text : Utf16Text} (word : Utf16Text) {gap : Utf16Text}
      (hne : gap ≠ []) (hgap : ∀ u ∈ gap, isBlankUnit u = true) (h : WordsApart words text) :
      WordsApart (word :: words) (word ++ gap ++ text)

/-- Some words with blanks between each two and perhaps around. -/
def Segment (words : List Utf16Text) (text : Utf16Text) : Prop :=
  ∃ before body after, text = before ++ body ++ after ∧ (∀ u ∈ before, isBlankUnit u = true) ∧
    (∀ u ∈ after, isBlankUnit u = true) ∧ WordsApart words body

/-! ### Any text -/

/-- A text with backslashes before its quotes and backslashes. -/
def escapeQuoted : Utf16Text → Utf16Text
  | [] => []
  | u :: text =>
    if u = 0x22 ∨ u = 0x5c then 0x5c :: u :: escapeQuoted text else u :: escapeQuoted text

/-- A text with backslashes before its parentheses and backslashes. -/
def escapeComment : Utf16Text → Utf16Text
  | [] => []
  | u :: text =>
    if u = 0x28 ∨ u = 0x29 ∨ u = 0x5c then 0x5c :: u :: escapeComment text
    else u :: escapeComment text

/-- **Any text can be quoted**. -/
theorem quotedBody_escapeQuoted (text : Utf16Text) : QuotedBody text (escapeQuoted text) := by
  induction text with
  | nil => exact .nil
  | cons u text ih =>
    rw [escapeQuoted]
    split_ifs with hu
    · exact .escaped u ih
    · exact .plain (not_or.1 hu) ih

/-- **Any text can be a comment**. -/
theorem commentBody_escapeComment (text : Utf16Text) : CommentBody (escapeComment text) := by
  induction text with
  | nil => exact .nil
  | cons u text ih =>
    rw [escapeComment]
    split_ifs with hu
    · exact .escaped u ih
    · rw [not_or, not_or] at hu
      exact .plain hu ih

variable {text : Utf16Text} {words : List Utf16Text}

/-- The written text has no other units than the text, backslashes apart. -/
theorem QuotedBody.mem {body : Utf16Text} (h : QuotedBody text body) {u : ℕ}
    (hu : u ∈ body) : u ∈ text ∨ u = 0x5c := by
  induction h with
  | nil => exact .inl hu
  | plain _ _ ih =>
    rcases List.mem_cons.1 hu with rfl | hu
    · exact .inl List.mem_cons_self
    · exact (ih hu).imp_left (List.mem_cons_of_mem _)
  | escaped v _ ih =>
    rcases List.mem_cons.1 hu with rfl | hu
    · exact .inr rfl
    · rcases List.mem_cons.1 hu with rfl | hu
      · exact .inl List.mem_cons_self
      · exact (ih hu).imp_left (List.mem_cons_of_mem _)

/-- A text without comments and quoted strings may stand before a field. -/
theorem WithComments.append_plain {before field : Utf16Text}
    (hbefore : ∀ u ∈ before, u ≠ 0x22 ∧ u ≠ 0x28 ∧ u ≠ 0x29) (h : WithComments text field) :
    WithComments (before ++ text) (before ++ field) := by
  induction before with
  | nil => exact h
  | cons u before ih =>
    exact .plain (hbefore u List.mem_cons_self)
      (ih fun v hv => hbefore v (List.mem_cons_of_mem _ hv))

/-! ### Words -/

section Words

variable {isSeparator : ℕ → Bool} {text text' : Utf16Text}

theorem Unbroken.of_forall (h : ∀ u ∈ text, u ≠ 0x22 ∧ isSeparator u = false) :
    Unbroken isSeparator text := by
  induction text with
  | nil => exact .nil
  | cons u text ih =>
    exact .plain (h u List.mem_cons_self) (ih fun v hv => h v (List.mem_cons_of_mem _ hv))

theorem Unbroken.append (h : Unbroken isSeparator text) (h' : Unbroken isSeparator text') :
    Unbroken isSeparator (text ++ text') := by
  induction h with
  | nil => exact h'
  | plain hu _ ih => exact .plain hu ih
  | quoted hbody _ ih =>
    rw [List.append_assoc]
    exact .quoted hbody ih

/-- The ends of a word that separators do not break are no separators. -/
theorem Unbroken.ends (h : Unbroken isSeparator text) (hquote : isSeparator 0x22 = false) :
    (∀ u ∈ text.head?, isSeparator u = false) ∧ ∀ u ∈ text.getLast?, isSeparator u = false := by
  induction h with
  | nil => exact ⟨fun u hu => (nomatch hu), fun u hu => (nomatch hu)⟩
  | @plain u text hu _ ih =>
    refine ⟨fun v hv => ?_, fun v hv => ?_⟩
    · rw [List.head?_cons, Option.mem_some_iff] at hv
      rw [← hv]
      exact hu.2
    · cases text with
      | nil =>
        rw [List.getLast?_singleton, Option.mem_some_iff] at hv
        rw [← hv]
        exact hu.2
      | cons w text => exact ih.2 v (by rwa [List.getLast?_cons_cons] at hv)
  | @quoted value body text hbody _ ih =>
    refine ⟨fun v hv => ?_, fun v hv => ?_⟩
    · rw [List.cons_append, List.head?_cons, Option.mem_some_iff] at hv
      rw [← hv]
      exact hquote
    · rw [List.getLast?_append_cons] at hv
      cases text with
      | nil =>
        rw [List.getLast?_singleton, Option.mem_some_iff] at hv
        rw [← hv]
        exact hquote
      | cons w text => exact ih.2 v (by rwa [List.getLast?_cons_cons] at hv)

end Words

/-! ### Blanks around -/

theorem trimUnits_append_of_blank {before : Utf16Text} (h : ∀ u ∈ before, isBlankUnit u = true)
    (text : Utf16Text) : trimUnits (before ++ text) = trimUnits text := by
  induction before with
  | nil => rfl
  | cons u before ih =>
    rw [List.cons_append, trimUnits_cons (h u List.mem_cons_self)]
    exact ih fun v hv => h v (List.mem_cons_of_mem _ hv)

theorem trimUnits_append_blank {after : Utf16Text} (h : ∀ u ∈ after, isBlankUnit u = true)
    (text : Utf16Text) : trimUnits (text ++ after) = trimUnits text := by
  induction after using List.reverseRecOn with
  | nil => rw [List.append_nil]
  | append_singleton after u ih =>
    rw [← List.append_assoc, trimUnits_concat (h u List.mem_concat_self)]
    exact ih fun v hv => h v (List.mem_append_left _ hv)

/-- A text that begins and ends with what is not blank. -/
theorem trimUnits_eq_self (hhead : ∀ u ∈ text.head?, isBlankUnit u = false)
    (hlast : ∀ u ∈ text.getLast?, isBlankUnit u = false) : trimUnits text = text := by
  have hdrop : text.dropWhile isBlankUnit = text := by
    cases text with
    | nil => rfl
    | cons u text =>
      exact List.dropWhile_cons_of_neg (by rw [hhead u rfl]; exact Bool.false_ne_true)
  rw [trimUnits, hdrop]
  refine List.rdropWhile_eq_self_iff.2 fun hne => ?_
  rw [hlast _ (List.getLast?_eq_getLast_of_ne_nil hne)]
  exact Bool.false_ne_true

/-- What the words of a text are: none is empty, and blanks stand in quoted strings only. -/
def AreWords (words : List Utf16Text) : Prop :=
  ∀ word ∈ words, word ≠ [] ∧ Unbroken isBlankUnit word

theorem WordsApart.ends (h : WordsApart words text) (hwords : AreWords words) :
    text ≠ [] ∧ (∀ u ∈ text.head?, isBlankUnit u = false) ∧
      ∀ u ∈ text.getLast?, isBlankUnit u = false := by
  induction h with
  | one word =>
    obtain ⟨hne, hword⟩ := hwords word List.mem_cons_self
    exact ⟨hne, hword.ends rfl⟩
  | @cons words text word gap hne hgap _ ih =>
    obtain ⟨hword, hunbroken⟩ := hwords word List.mem_cons_self
    obtain ⟨htext, -, hlast⟩ := ih fun w hw => hwords w (List.mem_cons_of_mem _ hw)
    refine ⟨fun hnil => htext (List.append_eq_nil_iff.1 hnil).2, fun u hu => ?_, fun u hu => ?_⟩
    · rw [List.append_assoc, List.head?_append_of_ne_nil _ hword] at hu
      exact (hunbroken.ends rfl).1 u hu
    · rw [List.getLast?_append_of_ne_nil _ htext] at hu
      exact hlast u hu

theorem WordsApart.unbroken {isSeparator : ℕ → Bool}
    (h : WordsApart words text) (hwords : ∀ word ∈ words, Unbroken isSeparator word)
    (hblank : ∀ u, isBlankUnit u = true → u ≠ 0x22 ∧ isSeparator u = false) :
    Unbroken isSeparator text := by
  induction h with
  | one word => exact hwords word List.mem_cons_self
  | cons word _ hgap _ ih =>
    exact ((hwords word List.mem_cons_self).append
      (.of_forall fun u hu => hblank u (hgap u hu))).append
        (ih fun w hw => hwords w (List.mem_cons_of_mem _ hw))

theorem Segment.unbroken {isSeparator : ℕ → Bool}
    (h : Segment words text) (hwords : ∀ word ∈ words, Unbroken isSeparator word)
    (hblank : ∀ u, isBlankUnit u = true → u ≠ 0x22 ∧ isSeparator u = false) :
    Unbroken isSeparator text := by
  obtain ⟨before, body, after, rfl, hbefore, hafter, hbody⟩ := h
  exact ((Unbroken.of_forall fun u hu => hblank u (hbefore u hu)).append
    (hbody.unbroken hwords hblank)).append (.of_forall fun u hu => hblank u (hafter u hu))

/-- **Trimming leaves the words with the blanks between them**. -/
theorem Segment.trim (h : Segment words text)
    (hwords : AreWords words) : WordsApart words (trimUnits text) := by
  obtain ⟨before, body, after, rfl, hbefore, hafter, hbody⟩ := h
  obtain ⟨-, hhead, hlast⟩ := hbody.ends hwords
  rw [trimUnits_append_blank hafter, trimUnits_append_of_blank hbefore,
    trimUnits_eq_self hhead hlast]
  exact hbody

end Foundations
