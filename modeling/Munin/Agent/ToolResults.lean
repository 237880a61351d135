import Munin.Agent.Untrusted
import Munin.Foundations.Json
import Munin.NationalIds

/-!
# Tool results in a chat

What a tool returns goes into the chat as a message: clamped, redacted and fenced. The results of
one chat share a budget; when it is exceeded the oldest of them are replaced by notes.

* **`wrapToolResult`** — the content of the message.
* **`evictOldToolResults`** — the replacement, of tool messages only and never of the newest
  (`evictOldToolResults_changes`). After it the results fit the budget, or none but the newest
  could be made shorter (`evictOldToolResults_fits`).
-/

namespace Munin.Agent

open Foundations Munin.NationalIds

/-! ### Chat messages -/

/-- Who speaks in a chat. -/
inductive ChatRole where
  | system
  | user
  | assistant
  | tool
  deriving DecidableEq

/-- An image of a chat message. -/
structure ChatImage where
  mime : Utf16Text
  base64 : Utf16Text

/-- A call that a provider asks for; the arguments are as it wrote them. -/
structure ChatToolCall where
  id : Utf16Text
  name : Utf16Text
  arguments : Utf16Text

/-- A message of a chat; where the source leaves a list out it is empty here. -/
structure ChatMessage where
  role : ChatRole
  content : Option Utf16Text
  images : List ChatImage
  name : Option Utf16Text
  toolCallId : Option Utf16Text
  toolCalls : List ChatToolCall
  isVolatile : Bool

/-- A message with a role and a content only. -/
def ChatMessage.plain (role : ChatRole) (content : Utf16Text) : ChatMessage :=
  ⟨role, some content, [], none, none, [], false⟩

/-! ### The content of a result -/

/-- A part of a result: one of type `text` with a text, or any other value. -/
inductive ContentItem where
  | text (text : Utf16Text)
  | other (value : Json)

/-- What a tool call gives back. -/
structure McpToolResult where
  content : List ContentItem
  isError : Bool

/-- The items of a result, a line each. -/
def flattenToolResult (result : McpToolResult) : Utf16Text :=
  [0x0a].intercalate <| result.content.map fun
    | .text text => text
    | .other value => utf16 value.stringify

/-- `MAX_TOOL_RESULT_CHARS`. -/
def maxToolResultChars : ℕ := 60000

/-- `MAX_TOTAL_TOOL_RESULT_CHARS`. -/
def maxTotalToolResultChars : ℕ := 160000

/-- A long result is cut, with a note of how much. -/
def clampToolResult (body : Utf16Text) : Utf16Text :=
  if body.length ≤ maxToolResultChars then body
  else
    body.take maxToolResultChars ++ utf16 "\n…[result truncated: " ++
      utf16 (toString (body.length - maxToolResultChars)) ++
      utf16 " more characters withheld to stay inside the context window. Narrow the request (filters, a lower limit, specific fields or ids) to see the rest.]"

/-- National ids are taken out of what a model reads. -/
def redactNationalIdsForPrompt (text : Utf16Text) : Utf16Text :=
  let found := findNationalIds text [.noFnr, .sePnr, .dkCpr] .high
  if found = [] then text else redactNationalIds text found .remove

/-- `<tool_result tool="…">…</tool_result>`. -/
def toolResultTag (toolName content : Utf16Text) : Utf16Text :=
  utf16 "<tool_result tool=\"" ++ sanitizeToolName toolName ++ utf16 "\">" ++ content ++
    utf16 "</tool_result>"

/-- The result of a tool, fenced as data. -/
def wrapToolResult (toolName body : Utf16Text) : Utf16Text :=
  toolResultTag toolName (fenceUntrusted .data (redactNationalIdsForPrompt body) [])

/-- What stands for a result that was evicted. -/
def elidedToolResultNote (toolName : Utf16Text) : Utf16Text :=
  toolResultTag toolName
    (utf16 "[Earlier result omitted to stay inside the context window. Call the tool again if you still need it.]")

/-! ### Eviction -/

/-- `msg.role === 'tool' && typeof msg.content === 'string'`. -/
def isToolResult (msg : ChatMessage) : Bool := msg.role = .tool && msg.content.isSome

/-- The note for a message: `toolNames` has the name of the tool of each call, the last first. -/
def noteFor (toolNames : List (Utf16Text × Utf16Text)) (msg : ChatMessage) : Utf16Text :=
  elidedToolResultNote ((toolNames.lookup (msg.toolCallId.getD [])).getD (utf16 "unknown"))

/-- Where the tool results are. -/
def toolIndexes (messages : List ChatMessage) : List ℕ :=
  (List.range messages.length).filter fun index => (messages[index]?).any isToolResult

/-- The characters of the content of a message. -/
def contentChars (msg : ChatMessage) : ℕ := (msg.content.map List.length).getD 0

/-- The characters of the tool results in a chat. -/
def toolResultChars (messages : List ChatMessage) : ℕ :=
  ((messages.filter isToolResult).map contentChars).sum

/-- The loop of `evictOldToolResults` over the indexes, with its `total`. -/
def evictFrom (toolNames : List (Utf16Text × Utf16Text)) (budget : ℕ) :
    List ℕ → ℕ → List ChatMessage → List ChatMessage
  | [], _, messages => messages
  | index :: rest, total, messages =>
    if total ≤ budget then messages
    else
      match messages[index]? with
      | none => evictFrom toolNames budget rest total messages
      | some msg =>
        match msg.content with
        | none => evictFrom toolNames budget rest total messages
        | some content =>
          if content.length ≤ (noteFor toolNames msg).length then
            evictFrom toolNames budget rest total messages
          else
            evictFrom toolNames budget rest
              (total - (content.length - (noteFor toolNames msg).length))
              (messages.set index { msg with content := some (noteFor toolNames msg) })

/-- Old results give way to their notes until the rest fits. -/
def evictOldToolResults (messages : List ChatMessage)
    (toolNames : List (Utf16Text × Utf16Text)) (budget : ℕ) : List ChatMessage :=
  evictFrom toolNames budget (toolIndexes messages).dropLast (toolResultChars messages) messages

/-! ### What eviction changes -/

/-- A message, or a tool message with another content. -/
def SameButContent (msg msg' : ChatMessage) : Prop :=
  msg' = msg ∨ isToolResult msg = true ∧ ∃ content, msg' = { msg with content := some content }

variable {msg msg' : ChatMessage} {messages : List ChatMessage} {i : ℕ}

theorem SameButContent.trans {msg'' : ChatMessage} (h : SameButContent msg msg')
    (h' : SameButContent msg' msg'') : SameButContent msg msg'' := by
  rcases h with rfl | ⟨htool, content, rfl⟩
  · exact h'
  · rcases h' with rfl | ⟨-, content', rfl⟩
    · exact .inr ⟨htool, content, rfl⟩
    · exact .inr ⟨htool, content', rfl⟩

/-- A message that is no tool result stays as it is. -/
theorem SameButContent.eq_of_role (h : SameButContent msg msg')
    (hrole : msg.role ≠ .tool) : msg' = msg := by
  refine h.resolve_right fun ⟨htool, _⟩ => hrole ?_
  rw [isToolResult, Bool.and_eq_true, decide_eq_true_eq] at htool
  exact htool.1

theorem SameButContent.isToolResult_eq (h : SameButContent msg msg') :
    isToolResult msg' = isToolResult msg := by
  rcases h with rfl | ⟨htool, content, rfl⟩
  · rfl
  · rw [htool]
    simp only [isToolResult, Bool.and_eq_true, decide_eq_true_eq] at htool ⊢
    exact ⟨htool.1, rfl⟩

theorem SameButContent.noteFor_eq (h : SameButContent msg msg')
    (toolNames : List (Utf16Text × Utf16Text)) :
    noteFor toolNames msg' = noteFor toolNames msg := by
  rcases h with rfl | ⟨-, content, rfl⟩ <;> rfl

theorem mem_toolIndexes :
    i ∈ toolIndexes messages ↔ ∃ msg, messages[i]? = some msg ∧ isToolResult msg = true := by
  rw [toolIndexes, List.mem_filter, List.mem_range, Option.any_eq_true]
  refine ⟨fun ⟨_, h⟩ => h, fun ⟨msg, hmsg, h⟩ => ⟨?_, msg, hmsg, h⟩⟩
  exact (List.getElem?_eq_some_iff.1 hmsg).1

theorem toolIndexes_sorted (messages : List ChatMessage) :
    (toolIndexes messages).Pairwise (· < ·) :=
  List.pairwise_lt_range.filter _

/-- An index other than the last is one with a later one. -/
theorem mem_dropLast_iff {indexes : List ℕ} (h : indexes.Pairwise (· < ·)) :
    i ∈ indexes.dropLast ↔ i ∈ indexes ∧ ∃ j ∈ indexes, i < j := by
  rcases List.eq_nil_or_concat indexes with rfl | ⟨before, last, rfl⟩
  · simp
  · rw [List.concat_eq_append, List.pairwise_append] at h
    rw [List.concat_eq_append, List.dropLast_concat]
    refine ⟨fun hi => ⟨List.mem_append_left _ hi, last, by simp, h.2.2 i hi last (by simp)⟩, ?_⟩
    rintro ⟨hi, j, hj, hij⟩
    rcases List.mem_append.1 hi with hi | hi
    · exact hi
    · rw [List.mem_singleton] at hi
      rcases List.mem_append.1 hj with hj | hj
      · have hlt := h.2.2 j hj last (by simp)
        omega
      · rw [List.mem_singleton] at hj
        omega

theorem toolResultChars_set (hmsg : messages[i]? = some msg) (htool : isToolResult msg = true)
    (htool' : isToolResult msg' = true) :
    toolResultChars (messages.set i msg') + contentChars msg =
      toolResultChars messages + contentChars msg' := by
  obtain ⟨hi, hget⟩ := List.getElem?_eq_some_iff.1 hmsg
  have hsplit : messages = messages.take i ++ msg :: messages.drop (i + 1) := by
    rw [← hget, List.getElem_cons_drop, List.take_append_drop]
  rw [List.set_eq_take_append_cons_drop, if_pos hi]
  conv_rhs => rw [hsplit]
  simp only [toolResultChars, List.filter_append, List.filter_cons_of_pos htool,
    List.filter_cons_of_pos htool', List.map_append, List.map_cons, List.sum_append, List.sum_cons]
  omega

/-- What the loop leaves of a chat: the messages at the indexes may have another content, and the
results fit or none of these is longer than its note. -/
structure Evicted (toolNames : List (Utf16Text × Utf16Text)) (budget : ℕ) (indexes : List ℕ)
    (messages result : List ChatMessage) : Prop where
  same : List.Forall₂ SameButContent messages result
  others : ∀ i ∉ indexes, result[i]? = messages[i]?
  fits : toolResultChars result ≤ budget ∨
    ∀ i ∈ indexes, ∀ msg, result[i]? = some msg →
      contentChars msg ≤ (noteFor toolNames msg).length

theorem forall₂_sameButContent_refl (messages : List ChatMessage) :
    List.Forall₂ SameButContent messages messages :=
  List.forall₂_same.2 fun _ _ => .inl rfl

theorem forall₂_sameButContent_trans {messages' messages'' : List ChatMessage}
    (h : List.Forall₂ SameButContent messages messages')
    (h' : List.Forall₂ SameButContent messages' messages'') :
    List.Forall₂ SameButContent messages messages'' := by
  induction h generalizing messages'' with
  | nil => exact h'
  | cons hmsg _ ih =>
    cases h' with
    | cons hmsg' h' => exact .cons (hmsg.trans hmsg') (ih h')

theorem forall₂_sameButContent_set
    (hmsg : messages[i]? = some msg) (hsame : SameButContent msg msg') :
    List.Forall₂ SameButContent messages (messages.set i msg') := by
  induction messages generalizing i with
  | nil => cases hmsg
  | cons first rest ih =>
    cases i with
    | zero =>
      rw [List.getElem?_cons_zero, Option.some.injEq] at hmsg
      rw [List.set_cons_zero, hmsg]
      exact .cons hsame (forall₂_sameButContent_refl rest)
    | succ i => exact .cons (.inl rfl) (ih hmsg)

/-- A message of which the loop makes nothing shorter. -/
theorem Evicted.cons_of_le {toolNames : List (Utf16Text × Utf16Text)} {budget index : ℕ}
    {rest : List ℕ} {result : List ChatMessage}
    (h : Evicted toolNames budget rest messages result) (hindex : index ∉ rest)
    (hshort : ∀ msg, messages[index]? = some msg →
      contentChars msg ≤ (noteFor toolNames msg).length) :
    Evicted toolNames budget (index :: rest) messages result where
  same := h.same
  others i hi := h.others i fun hmem => hi (List.mem_cons_of_mem _ hmem)
  fits := h.fits.imp_right fun hall i hi msg hmsg => by
    rcases List.mem_cons.1 hi with rfl | hi
    · rw [h.others i hindex] at hmsg
      exact hshort msg hmsg
    · exact hall i hi msg hmsg

/-- By induction on the indexes: `total` stays the characters of the results. -/
theorem evictFrom_spec (toolNames : List (Utf16Text × Utf16Text)) (budget : ℕ) {indexes : List ℕ}
    (hindexes : indexes.Nodup)
    (htool : ∀ i ∈ indexes, ∃ msg, messages[i]? = some msg ∧ isToolResult msg = true) :
    Evicted toolNames budget indexes messages
      (evictFrom toolNames budget indexes (toolResultChars messages) messages) := by
  induction indexes generalizing messages with
  | nil => exact ⟨forall₂_sameButContent_refl messages, fun _ _ => rfl, .inr (by simp)⟩
  | cons index rest ih =>
    rw [List.nodup_cons] at hindexes
    obtain ⟨msg, hmsg, hresult⟩ := htool index List.mem_cons_self
    obtain ⟨content, hcontent⟩ : ∃ content, msg.content = some content := by
      rw [isToolResult, Bool.and_eq_true] at hresult
      exact Option.isSome_iff_exists.1 hresult.2
    have hrest : ∀ i ∈ rest, ∃ msg, messages[i]? = some msg ∧ isToolResult msg = true :=
      fun i hi => htool i (List.mem_cons_of_mem _ hi)
    rw [evictFrom]
    split_ifs with hbudget
    · exact ⟨forall₂_sameButContent_refl messages, fun _ _ => rfl, .inl hbudget⟩
    · simp only [hmsg, hcontent]
      split_ifs with hlong
      · refine (ih hindexes.2 hrest).cons_of_le hindexes.1 fun msg' hmsg' => ?_
        rw [hmsg, Option.some.injEq] at hmsg'
        rw [← hmsg', contentChars, hcontent]
        exact hlong
      · set note := { msg with content := some (noteFor toolNames msg) } with hnote
        have hsame : SameButContent msg note := .inr ⟨hresult, _, rfl⟩
        have hindex : (messages.set index note)[index]? = some note :=
          List.getElem?_set_self (List.getElem?_eq_some_iff.1 hmsg).1
        have hother : ∀ i, i ≠ index → (messages.set index note)[i]? = messages[i]? :=
          fun i hi => List.getElem?_set_ne (Ne.symm hi)
        have htotal := toolResultChars_set hmsg hresult (hsame.isToolResult_eq.trans hresult)
        have hchars : contentChars msg = content.length := by rw [contentChars, hcontent]; rfl
        have hchars' : contentChars note = (noteFor toolNames msg).length := rfl
        rw [(by omega : toolResultChars messages -
          (content.length - (noteFor toolNames msg).length) =
            toolResultChars (messages.set index note))]
        have hset := ih hindexes.2 fun i hi => by
          rw [hother i fun heq => hindexes.1 (heq ▸ hi)]
          exact hrest i hi
        refine ⟨forall₂_sameButContent_trans (forall₂_sameButContent_set hmsg hsame) hset.same,
          fun i hi => ?_, hset.fits.imp_right fun hall i hi msg' hmsg' => ?_⟩
        · rw [List.mem_cons, not_or] at hi
          rw [hset.others i hi.2, hother i hi.1]
        · rcases List.mem_cons.1 hi with rfl | hi
          · rw [hset.others i hindexes.1, hindex, Option.some.injEq] at hmsg'
            rw [← hmsg', hchars', hsame.noteFor_eq]
          · exact hall i hi msg' hmsg'

/-! ### Eviction -/

section Eviction

variable (messages : List ChatMessage) (toolNames : List (Utf16Text × Utf16Text)) (budget : ℕ)

theorem evictOldToolResults_spec :
    Evicted toolNames budget (toolIndexes messages).dropLast messages
      (evictOldToolResults messages toolNames budget) := by
  have hsorted := toolIndexes_sorted messages
  refine evictFrom_spec toolNames budget ?_ fun i hi =>
    mem_toolIndexes.1 ((List.dropLast_sublist _).subset hi)
  exact (hsorted.imp fun hlt => Nat.ne_of_lt hlt).sublist (List.dropLast_sublist _)

/-- **Eviction changes contents of tool messages only, and never of the newest one**. -/
theorem evictOldToolResults_changes :
    List.Forall₂ SameButContent messages (evictOldToolResults messages toolNames budget) ∧
      ∀ i : ℕ, (∀ j msg, i < j → messages[j]? = some msg → isToolResult msg = false) →
        (evictOldToolResults messages toolNames budget)[i]? = messages[i]? := by
  have hspec := evictOldToolResults_spec messages toolNames budget
  refine ⟨hspec.same, fun i hnewest => hspec.others i fun hmem => ?_⟩
  obtain ⟨-, j, hj, hij⟩ := (mem_dropLast_iff (toolIndexes_sorted messages)).1 hmem
  obtain ⟨msg, hmsg, htool⟩ := mem_toolIndexes.1 hj
  rw [hnewest j msg hij hmsg] at htool
  cases htool

/-- **After eviction the results fit the budget, or each but the newest is no longer than its
note**; one that was replaced is its note. -/
theorem evictOldToolResults_fits :
    toolResultChars (evictOldToolResults messages toolNames budget) ≤ budget ∨
      ∀ (i j : ℕ) (msg msg' : ChatMessage), i < j →
        (evictOldToolResults messages toolNames budget)[i]? = some msg →
        (evictOldToolResults messages toolNames budget)[j]? = some msg' →
        isToolResult msg = true → isToolResult msg' = true →
          contentChars msg ≤ (noteFor toolNames msg).length := by
  have hspec := evictOldToolResults_spec messages toolNames budget
  have htool : ∀ i msg, (evictOldToolResults messages toolNames budget)[i]? = some msg →
      isToolResult msg = true → i ∈ toolIndexes messages := by
    intro i msg hmsg hresult
    obtain ⟨hlength, hall⟩ := List.forall₂_iff_get.1 hspec.same
    obtain ⟨hi, hget⟩ := List.getElem?_eq_some_iff.1 hmsg
    have hsame := hall i (hlength ▸ hi) hi
    rw [List.get_eq_getElem, List.get_eq_getElem, hget] at hsame
    exact mem_toolIndexes.2
      ⟨_, List.getElem?_eq_getElem (hlength ▸ hi), hsame.isToolResult_eq ▸ hresult⟩
  refine hspec.fits.imp_right fun hall i j msg msg' hij hmsg hmsg' hresult hresult' => ?_
  exact hall i ((mem_dropLast_iff (toolIndexes_sorted messages)).2
    ⟨htool i msg hmsg hresult, j, htool j msg' hmsg' hresult', hij⟩) msg hmsg

end Eviction

end Munin.Agent
