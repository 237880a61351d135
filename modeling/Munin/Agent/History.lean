import Munin.Agent.Untrusted

/-!
# The history of a conversation

What an agent is shown of a conversation is limited to a number of characters. A message counts
with its body, with the mail it quotes as the agent is shown it, and with its images.

* **`compactHistory`** — the messages that are shown, and how many are not.
* **`LongestSuffix`** — the longest suffix of a list whose weights fit a budget.
* **`compactHistory_spec`** — the messages that are shown are this suffix of the history. So the
  newest message is shown exactly if it fits alone.
-/

namespace Munin.Agent

open Foundations

/-! ### Messages -/

/-- An earlier mail that a message quotes. -/
structure QuotedHistoryTurn where
  sender : Option Utf16Text
  date : Option Utf16Text
  subject : Option Utf16Text
  body : Utf16Text

/-- Who wrote a message. -/
inductive AuthorType where
  | user
  | agent
  | endUser
  | system
  | staff

/-- A file that came with a message. -/
structure ConversationAttachment where
  mime : Utf16Text
  url : Option Utf16Text
  name : Option Utf16Text

/-- A message of a conversation; where the source leaves a list out it is empty here. -/
structure ConversationMessage where
  authorType : AuthorType
  body : Utf16Text
  attachments : List ConversationAttachment
  quotedHistory : List QuotedHistoryTurn

/-! ### Quoted mail -/

/-- The line above the quoted mails. -/
def quotedHistoryLabel : Utf16Text :=
  utf16 "[Quoted email history — text the mail client quoted, not what the customer wrote]"

/-- A line of a header, for a value that is there and not empty. -/
def headerLine (label : String) (value : Option Utf16Text) : List Utf16Text :=
  ((value.filter (· ≠ [])).map fun v => utf16 label ++ v).toList

/-- The block of the turn at `index`. -/
def quotedBlock (turn : QuotedHistoryTurn) (index : ℕ) : Utf16Text :=
  let title := utf16 "--- quoted message " ++ utf16 (toString (index + 1)) ++
    (if index = 0 then utf16 " (most recent)" else []) ++ utf16 " ---"
  let header := title :: headerLine "From: " turn.sender ++ headerLine "Date: " turn.date ++
    headerLine "Subject: " turn.subject
  [0x0a].intercalate header ++ utf16 "\n\n" ++ turn.body

/-- The quoted mails of a message, as a block of their own. -/
def renderQuotedHistory (turns : List QuotedHistoryTurn) : Option Utf16Text :=
  if turns = [] then none
  else
    let blocks := turns.mapIdx fun index turn => quotedBlock turn index
    some (quotedHistoryLabel ++ 0x0a ::
      fenceUntrusted .quotedHistory ((utf16 "\n\n").intercalate blocks) [])

/-! ### Compaction -/

/-- `VISION_MAX_IMAGES_PER_TURN`. -/
def visionMaxImagesPerTurn : ℕ := 3

/-- `VISION_IMAGE_HISTORY_CHAR_COST`. -/
def visionImageHistoryCharCost : ℕ := 2000

/-- What the images of a message cost. -/
def imageBudgetChars (attachmentCount : ℕ) : ℕ :=
  min attachmentCount visionMaxImagesPerTurn * visionImageHistoryCharCost

/-- What a message costs in the history. -/
def historyEntryChars (msg : ConversationMessage) : ℕ :=
  msg.body.length + ((renderQuotedHistory msg.quotedHistory).map List.length).getD 0 +
    imageBudgetChars msg.attachments.length

/-- The loop of `compactHistory`, over the messages from the newest on. -/
def keepFrom : List ConversationMessage → ℕ → List ConversationMessage → List ConversationMessage
  | kept, _, [] => kept
  | kept, budget, m :: older =>
    if budget < historyEntryChars m then kept
    else keepFrom (m :: kept) (budget - historyEntryChars m) older

/-- The messages that are kept, and how many are not. -/
structure CompactedHistory where
  history : List ConversationMessage
  truncated : ℕ

/-- The characters of some messages. -/
def totalChars (history : List ConversationMessage) : ℕ := (history.map historyEntryChars).sum

/-- The newest messages that fit, all of them if they do. -/
def compactHistory (history : List ConversationMessage) (maxChars : ℕ) : CompactedHistory :=
  if totalChars history ≤ maxChars then ⟨history, 0⟩
  else
    let kept := keepFrom [] maxChars history.reverse
    ⟨kept, history.length - kept.length⟩

/-! ### The longest suffix that fits -/

section LongestSuffix

variable {α : Type*} {weight : α → ℕ} {budget : ℕ} {list kept : List α}

/-- The longest suffix of a list whose weights fit a budget. -/
structure LongestSuffix (weight : α → ℕ) (budget : ℕ) (list kept : List α) : Prop where
  suffix : kept <:+ list
  fits : (kept.map weight).sum ≤ budget
  longest : ∀ s, s <:+ list → (s.map weight).sum ≤ budget → s <:+ kept

/-- A list that fits is kept as a whole. -/
theorem LongestSuffix.of_fits (h : (list.map weight).sum ≤ budget) :
    LongestSuffix weight budget list list :=
  ⟨List.suffix_rfl, h, fun _ hs _ => hs⟩

/-- Where the element before does not fit, the suffix goes no further. -/
theorem LongestSuffix.of_next {before : List α} {a : α} (hfits : (kept.map weight).sum ≤ budget)
    (hnext : budget < weight a + (kept.map weight).sum) :
    LongestSuffix weight budget (before ++ a :: kept) kept := by
  refine ⟨⟨before ++ [a], by simp⟩, hfits, fun s hs hsum => ?_⟩
  have hkept : a :: kept <:+ before ++ a :: kept := ⟨before, rfl⟩
  rcases List.suffix_or_suffix_of_suffix hs hkept with hle | ⟨more, hmore⟩
  · rcases List.suffix_cons_iff.1 hle with rfl | hle
    · rw [List.map_cons, List.sum_cons] at hsum
      omega
    · exact hle
  · rw [← hmore, List.map_append, List.sum_append, List.map_cons, List.sum_cons] at hsum
    omega

/-- **The last element is kept exactly if it fits alone**. -/
theorem LongestSuffix.last_iff (h : LongestSuffix weight budget list kept) {a : α}
    (ha : list.getLast? = some a) : kept.getLast? = some a ↔ weight a ≤ budget := by
  obtain ⟨before, rfl⟩ := List.getLast?_eq_some_iff.1 ha
  refine ⟨fun hkept => ?_, fun hfit => ?_⟩
  · obtain ⟨before', rfl⟩ := List.getLast?_eq_some_iff.1 hkept
    have hfits := h.fits
    rw [List.map_append, List.sum_append, List.map_singleton, List.sum_singleton] at hfits
    omega
  · obtain ⟨more, rfl⟩ := h.longest [a] ⟨before, rfl⟩ (by simpa using hfit)
    exact List.getLast?_concat

end LongestSuffix

/-- The loop keeps the longest suffix that fits: what it has kept fits, with the budget that is
left, and the older messages stand before it. -/
theorem keepFrom_spec {kept older : List ConversationMessage} {budget maxChars : ℕ}
    (hbudget : totalChars kept + budget = maxChars) :
    LongestSuffix historyEntryChars maxChars (older.reverse ++ kept)
      (keepFrom kept budget older) := by
  induction older generalizing kept budget with
  | nil => exact LongestSuffix.of_fits (Nat.le.intro hbudget)
  | cons m older ih =>
    rw [keepFrom, List.reverse_cons, List.append_assoc, List.singleton_append]
    split_ifs with hcost
    · refine LongestSuffix.of_next (Nat.le.intro hbudget) ?_
      rw [← hbudget, Nat.add_comm]
      exact Nat.add_lt_add_right hcost _
    · refine ih ?_
      rw [totalChars, List.map_cons, List.sum_cons, ← totalChars, ← hbudget]
      omega

theorem compactHistory_longest (history : List ConversationMessage) (maxChars : ℕ) :
    LongestSuffix historyEntryChars maxChars history (compactHistory history maxChars).history := by
  rw [compactHistory]
  split_ifs with htotal
  · exact LongestSuffix.of_fits htotal
  · have hkept := @keepFrom_spec [] history.reverse _ _ (Nat.zero_add maxChars)
    rw [List.append_nil, List.reverse_reverse] at hkept
    exact hkept

theorem compactHistory_truncated (history : List ConversationMessage) (maxChars : ℕ) :
    (compactHistory history maxChars).truncated =
      history.length - (compactHistory history maxChars).history.length := by
  rw [compactHistory]
  split_ifs
  · exact (Nat.sub_self _).symm
  · rfl

/-- **Compaction keeps the longest suffix of the history that fits the budget**, says how many
messages it leaves out, and keeps the newest message exactly if that one fits alone. -/
theorem compactHistory_spec (history : List ConversationMessage) (maxChars : ℕ) :
    LongestSuffix historyEntryChars maxChars history (compactHistory history maxChars).history ∧
      (compactHistory history maxChars).truncated +
        (compactHistory history maxChars).history.length = history.length ∧
      ∀ newest, history.getLast? = some newest →
        ((compactHistory history maxChars).history.getLast? = some newest ↔
          historyEntryChars newest ≤ maxChars) := by
  have hlongest := compactHistory_longest history maxChars
  refine ⟨hlongest, ?_, fun newest hnewest => hlongest.last_iff hnewest⟩
  rw [compactHistory_truncated]
  exact Nat.sub_add_cancel hlongest.suffix.length_le

/-- A message that is too long leaves nothing. -/
theorem compactHistory_drops_newest :
    (compactHistory [⟨.endUser, utf16 "abc", [], []⟩] 2).history = [] ∧
      ¬ ∀ (history : List ConversationMessage) (maxChars : ℕ) (newest : ConversationMessage),
        history.getLast? = some newest →
          (compactHistory history maxChars).history.getLast? = some newest := by
  have hnil : (compactHistory [⟨.endUser, utf16 "abc", [], []⟩] 2).history = [] := by decide
  refine ⟨hnil, fun h => ?_⟩
  have hlast := h [⟨.endUser, utf16 "abc", [], []⟩] 2 _ rfl
  rw [hnil] at hlast
  cases hlast

end Munin.Agent
