import Munin.Foundations.Utf16Text
import Mathlib.Logic.Relation

/-!
# Chunks of a document

A document is cut into chunks before it is embedded. A window is laid on the trimmed text; its end
is moved to a paragraph, a sentence or a space if there is one in its last part; the trimmed slice
is a chunk, and the next window starts some way before the cut.

* **`chunkDocument_covers`** — the loop ends, the chunks are pieces of the text in order of
  position, everything that is not blank is in one of them, and none is larger than the target.
* **`chunks_wellFormed_iff`** — the chunks of a well-formed text are well formed exactly if no
  window starts or is cut inside a pair of units. The cut at a paragraph, a sentence or a space is
  never inside a pair (`not_insidePair_of_boundary`); the plain end of a window and the step back
  by the overlap can be.
-/

namespace Munin.Kb

open Foundations

/-- How long chunks are, and how far they overlap. -/
structure ChunkOptions where
  targetTokens : Option ℕ := none
  overlapTokens : Option ℕ := none

/-- A chunk of a document. -/
structure Chunk where
  index : ℕ
  content : Utf16Text
  tokenCount : ℕ
  deriving DecidableEq

/-- Why there are no chunks. -/
inductive ChunkError where
  /-- `overlap (…) must be less than target (…)`. -/
  | overlapNotLess (overlap target : ℕ)
  /-- The loop has not ended. -/
  | unfinished
  deriving DecidableEq

/-- Tokens of a chunk. -/
def defaultTarget : ℕ := 512

/-- Tokens that a chunk shares with the one before. -/
def defaultOverlap : ℕ := 64

/-- Units that are taken for a token. -/
def charsPerToken : ℕ := 4

/-- `opts.targetTokens ?? DEFAULT_TARGET`. -/
def ChunkOptions.target (opts : ChunkOptions) : ℕ := opts.targetTokens.getD defaultTarget

/-- `opts.overlapTokens ?? DEFAULT_OVERLAP`. -/
def ChunkOptions.overlap (opts : ChunkOptions) : ℕ := opts.overlapTokens.getD defaultOverlap

/-- `estimateTokens`: at least one. -/
def estimateTokens (text : Utf16Text) : ℕ :=
  max 1 ((text.length + (charsPerToken - 1)) / charsPerToken)

/-- The class `[.!?]`. -/
def isSentenceEnder (u : ℕ) : Bool := u == 0x2e || u == 0x21 || u == 0x3f

/-- Where `/[.!?]\s/g` matches in a text whose first position is `i`. -/
def sentenceEnds : ℕ → Utf16Text → List ℕ
  | i, u :: v :: rest =>
    if isSentenceEnder u && isBlankUnit v then i :: sentenceEnds (i + 2) rest
    else sentenceEnds (i + 1) (v :: rest)
  | _, _ => []

/-- Behind the last sentence end of a stretch. -/
def lastSentenceEnd (text : Utf16Text) (minCut stop : ℕ) : Option ℕ :=
  (sentenceEnds 0 (sliceUnits text minCut stop)).getLast?.map fun last => minCut + last + 2

/-- Where to cut a window that ends within the text. The multiplication by `0.6` rounds to the
exact number where that is whole, so `Math.floor` gives the quotient. -/
def preferBoundary (text : Utf16Text) (start stop : ℕ) : ℕ :=
  let minCut := start + (stop - start) * 6 / 10
  match (lastIndexOf [0x0a, 0x0a] text stop).filter (minCut < ·) with
  | some para => para + 2
  | none =>
    match lastSentenceEnd text minCut stop with
    | some sentence => sentence
    | none =>
      match (lastIndexOf [0x20] text stop).filter (minCut < ·) with
      | some space => space + 1
      | none => stop

/-- The end of the window at `start`. -/
def windowEnd (trimmed : Utf16Text) (targetChars start : ℕ) : ℕ :=
  min (start + targetChars) trimmed.length

/-- The cut of the window at `start`. -/
def windowCut (trimmed : Utf16Text) (targetChars start : ℕ) : ℕ :=
  if windowEnd trimmed targetChars start < trimmed.length then
    preferBoundary trimmed start (windowEnd trimmed targetChars start)
  else windowEnd trimmed targetChars start

/-- The chunks from the window at `start` on, if the loop ends within `fuel` turns. -/
def chunkLoop (trimmed : Utf16Text) (targetChars overlapChars : ℕ) :
    ℕ → ℕ → ℕ → Except ChunkError (List Chunk)
  | 0, _, _ => .error .unfinished
  | fuel + 1, start, idx =>
    if start < trimmed.length then
      let cut := windowCut trimmed targetChars start
      let slice := trimUnits (sliceUnits trimmed start cut)
      let pushed := if slice = [] then [] else [⟨idx, slice, estimateTokens slice⟩]
      if trimmed.length ≤ cut then .ok pushed
      else
        (chunkLoop trimmed targetChars overlapChars fuel (max (cut - overlapChars) (start + 1))
          (idx + pushed.length)).map (pushed ++ ·)
    else .ok []

/-- `chunkDocument`. -/
def chunkDocument (text : Utf16Text) (opts : ChunkOptions) : Except ChunkError (List Chunk) :=
  if opts.target ≤ opts.overlap then .error (.overlapNotLess opts.overlap opts.target)
  else
    let targetChars := opts.target * charsPerToken
    let overlapChars := opts.overlap * charsPerToken
    let trimmed := trimUnits text
    if trimmed = [] then .ok []
    else if trimmed.length ≤ targetChars then .ok [⟨0, trimmed, estimateTokens trimmed⟩]
    else chunkLoop trimmed targetChars overlapChars (trimmed.length + 1) 0 0

/-! ### Cuts -/

variable {text trimmed content : Utf16Text}
  {stop cut start targetChars p target idx start' overlapChars : ℕ} {placed : List (Chunk × ℕ)}

/-- Where a sentence ends: an ender, and a blank behind it. -/
theorem of_mem_sentenceEnds {i k : ℕ} (h : k ∈ sentenceEnds i text) :
    i ≤ k ∧ k - i + 1 < text.length ∧ isBlankUnit (unitAt text (k - i + 1)) = true := by
  induction i, text using sentenceEnds.induct with
  | case1 i u v rest hends ih =>
    rw [sentenceEnds, if_pos hends] at h
    rcases List.mem_cons.1 h with rfl | hrest
    · rw [Nat.sub_self]
      exact ⟨le_rfl, by simp, (Bool.and_eq_true_iff.1 hends).2⟩
    · obtain ⟨hle, hlt, hblank⟩ := ih hrest
      have hpos : k - i + 1 = k - (i + 2) + 1 + 2 := by omega
      rw [hpos]
      exact ⟨by omega, Nat.add_lt_add_right hlt 2, hblank⟩
  | case2 i u v rest hends ih =>
    rw [sentenceEnds, if_neg hends] at h
    obtain ⟨hle, hlt, hblank⟩ := ih h
    have hpos : k - i + 1 = k - (i + 1) + 1 + 1 := by omega
    rw [hpos]
    exact ⟨by omega, Nat.add_lt_add_right hlt 1, hblank⟩
  | case3 i text hshort => simp [sentenceEnds] at h

theorem lastSentenceEnd_spec {minCut : ℕ} (hstop : stop ≤ text.length)
    (h : lastSentenceEnd text minCut stop = some cut) :
    minCut < cut ∧ cut ≤ stop ∧ isBlankUnit (unitAt text (cut - 1)) = true := by
  obtain ⟨last, hlast, rfl⟩ := Option.map_eq_some_iff.1 h
  obtain ⟨-, hlt, hblank⟩ := of_mem_sentenceEnds (List.mem_of_getLast? hlast)
  rw [Nat.sub_zero, length_sliceUnits hstop] at hlt
  rw [Nat.sub_zero, unitAt_sliceUnits text hlt] at hblank
  exact ⟨by omega, by omega, hblank⟩

/-- A blank that stands behind `minCut` and not behind the end of the window, as the search for
paragraphs and spaces finds it. -/
theorem blank_of_lastIndexOf {word : Utf16Text} {minCut i : ℕ}
    (hword : ∀ u ∈ word, isBlankUnit u = true)
    (h : (lastIndexOf word text stop).filter (minCut < ·) = some i) :
    minCut < i ∧ i ≤ stop ∧ OccursAt word text i ∧
      ∀ k < word.length, isBlankUnit (unitAt text (i + k)) = true := by
  obtain ⟨hfound, hlt⟩ := Option.filter_eq_some_iff.1 h
  obtain ⟨hle, hoccurs⟩ := lastIndexOf_eq_some hfound
  refine ⟨of_decide_eq_true hlt, hle, hoccurs, fun k hk => ?_⟩
  rw [unitAt_of_occursAt hoccurs hk, unitAt_eq_getElem hk]
  exact hword _ (List.getElem_mem hk)

/-- What a cut of a window can be: its end, or a place behind a blank. If it is behind the end,
there are blanks between. -/
structure GoodCut (text : Utf16Text) (start stop cut : ℕ) : Prop where
  start_lt : start < cut
  le_length : cut ≤ text.length
  /-- A cut other than the end follows a blank. -/
  boundary : cut = stop ∨ isBlankUnit (unitAt text (cut - 1)) = true
  /-- Between the end and a later cut everything is blank. -/
  beyond : ∀ k, stop ≤ k → k < cut → isBlankUnit (unitAt text k) = true

theorem preferBoundary_good (hstart : start < stop)
    (hstop : stop ≤ text.length) : GoodCut text start stop (preferBoundary text start stop) := by
  unfold preferBoundary
  dsimp only
  split
  · rename_i para hpara
    obtain ⟨hmin, hle, hoccurs, hblank⟩ := blank_of_lastIndexOf (by decide) hpara
    have hlength := hoccurs.le_length (by decide)
    have hfirst := hblank 0 (by decide)
    have hsecond := hblank 1 (by decide)
    rw [List.length_cons, List.length_cons, List.length_nil] at hlength
    refine ⟨by omega, by omega, .inr hsecond, fun k hk hk' => ?_⟩
    rcases (by omega : k = para + 0 ∨ k = para + 1) with rfl | rfl
    · exact hfirst
    · exact hsecond
  · split
    · rename_i sentence hsentence
      obtain ⟨hmin, hle, hblank⟩ := lastSentenceEnd_spec hstop hsentence
      exact ⟨by omega, by omega, .inr hblank, fun k hk hk' => by omega⟩
    · split
      · rename_i space hspace
        obtain ⟨hmin, hle, hoccurs, hblank⟩ := blank_of_lastIndexOf (by decide) hspace
        have hlength := hoccurs.le_length (by decide)
        have hfirst := hblank 0 (by decide)
        rw [List.length_cons, List.length_nil] at hlength
        refine ⟨by omega, by omega, .inr hfirst, fun k hk hk' => ?_⟩
        obtain rfl : k = space + 0 := by omega
        exact hfirst
      · exact ⟨hstart, hstop, .inl rfl, fun k hk hk' => by omega⟩

/-- The cut of a window that starts within the text. -/
theorem windowCut_good (hpos : 0 < targetChars) (hstart : start < trimmed.length) :
    GoodCut trimmed start (windowEnd trimmed targetChars start)
      (windowCut trimmed targetChars start) := by
  have hend : start < windowEnd trimmed targetChars start := by
    rw [windowEnd]
    omega
  have hle : windowEnd trimmed targetChars start ≤ trimmed.length := Nat.min_le_right _ _
  rw [windowCut]
  split_ifs
  · exact preferBoundary_good hend hle
  · exact ⟨hend, hle, .inl rfl, fun k hk hk' => by omega⟩

/-- A trimmed slice that ends at such a cut is no longer than the window. -/
theorem length_le_of_goodCut (hstop : start ≤ stop) (hcut : GoodCut text start stop cut)
    (h : TrimmedSlice text start cut p content) :
    content.length ≤ stop - start := by
  by_cases hnil : content = []
  · rw [hnil]
    exact Nat.zero_le _
  · have hpos := List.length_pos_iff.2 hnil
    have hstart := h.start_le
    have hle := h.le_stop
    have hlast := (h.ends hnil).2
    have hbefore : p + content.length - 1 < stop := by
      by_contra hbeyond
      rw [hcut.beyond _ (Nat.not_lt.1 hbeyond) (by omega)] at hlast
      cases hlast
    omega

theorem estimateTokens_le (htarget : 0 < target)
    (h : text.length ≤ target * charsPerToken) : estimateTokens text ≤ target := by
  unfold estimateTokens charsPerToken at *
  omega

/-! ### The chunks cover the text -/

/-- The chunks of the text from `start` on, each with its position in it. -/
structure CoversFrom (text : Utf16Text) (target start idx : ℕ) (placed : List (Chunk × ℕ)) :
    Prop where
  /-- Each chunk is the piece of the text at its position, and begins with what is not blank. -/
  pieces : ∀ c ∈ placed, OccursAt c.1.content text c.2 ∧ start ≤ c.2 ∧
    isBlankUnit (unitAt text c.2) = false
  /-- The pieces come in order of position. -/
  ordered : placed.Pairwise fun c d => c.2 ≤ d.2
  /-- Whatever is not blank is in one of them. -/
  covered : ∀ i, start ≤ i → i < text.length → isBlankUnit (unitAt text i) = false →
    ∃ c ∈ placed, c.2 ≤ i ∧ i < c.2 + c.1.content.length
  /-- They are numbered one after the other. -/
  numbered : placed.map (fun c => c.1.index) = List.range' idx placed.length
  /-- None is larger than the target. -/
  small : ∀ c ∈ placed, c.1.tokenCount = estimateTokens c.1.content ∧ c.1.tokenCount ≤ target

/-- Behind the end there is nothing to cover. -/
theorem CoversFrom.nil (h : text.length ≤ start) : CoversFrom text target start idx [] :=
  ⟨by simp, .nil, fun i hi hi' => by omega, rfl, by simp⟩

/-- A window without a chunk has nothing to cover. -/
theorem CoversFrom.skip (hslice : TrimmedSlice text start cut p []) (hstart : start ≤ start')
    (hcut : start' ≤ cut) (h : CoversFrom text target start' idx placed) :
    CoversFrom text target start idx placed := by
  refine ⟨fun c hc => ?_, h.ordered, fun i hi hlt hink => ?_, h.numbered, h.small⟩
  · obtain ⟨hoccurs, hle, hink⟩ := h.pieces c hc
    exact ⟨hoccurs, by omega, hink⟩
  · refine h.covered i (Nat.not_lt.1 fun hbefore => ?_) hlt hink
    have hblank : isBlankUnit (unitAt text i) = true := by
      by_cases hp : i < p
      · exact hslice.before i hi hp
      · exact hslice.after i (Nat.not_lt.1 hp) (by omega)
    rw [hblank] at hink
    cases hink

/-- The chunk of one window, and the chunks from within it on. -/
theorem CoversFrom.push (hslice : TrimmedSlice text start cut p content)
    (hsmall : estimateTokens content ≤ target) (hne : content ≠ []) (hstart : start ≤ start')
    (hcut : start' ≤ cut) (h : CoversFrom text target start' (idx + 1) placed) :
    CoversFrom text target start idx ((⟨idx, content, estimateTokens content⟩, p) :: placed) := by
  have hink := (hslice.ends hne).1
  refine ⟨?_, .cons (fun c hc => ?_) h.ordered, fun i hi hlt hnot => ?_, ?_, ?_⟩
  · intro c hc
    rcases List.mem_cons.1 hc with rfl | hc
    · exact ⟨hslice.occurs, hslice.start_le, hink⟩
    · obtain ⟨hoccurs, hle, hnot⟩ := h.pieces c hc
      exact ⟨hoccurs, by omega, hnot⟩
  · -- the first chunk begins with the first thing that is not blank
    obtain ⟨-, hle, hnot⟩ := h.pieces c hc
    refine Nat.not_lt.1 fun hbefore => ?_
    rw [hslice.before c.2 (by omega) hbefore] at hnot
    cases hnot
  · have hp : p ≤ i := by
      refine Nat.not_lt.1 fun hbefore => ?_
      rw [hslice.before i hi hbefore] at hnot
      cases hnot
    by_cases hin : i < p + content.length
    · exact ⟨_, List.mem_cons_self, hp, hin⟩
    · have hbehind : cut ≤ i := by
        refine Nat.not_lt.1 fun hwithin => ?_
        rw [hslice.after i (Nat.not_lt.1 hin) hwithin] at hnot
        cases hnot
      obtain ⟨c, hc, hci⟩ := h.covered i (by omega) hlt hnot
      exact ⟨c, List.mem_cons_of_mem _ hc, hci⟩
  · rw [List.map_cons, h.numbered, List.length_cons, List.range'_succ]
  · intro c hc
    rcases List.mem_cons.1 hc with rfl | hc
    · exact ⟨rfl, hsmall⟩
    · exact h.small c hc

/-- What one turn of the loop pushes covers its window. -/
theorem CoversFrom.window {pushed : List Chunk}
    (hpushed : pushed = if content = [] then [] else [⟨idx, content, estimateTokens content⟩])
    (hslice : TrimmedSlice text start cut p content) (hsmall : estimateTokens content ≤ target)
    (hstart : start ≤ start') (hcut : start' ≤ cut)
    (h : CoversFrom text target start' (idx + pushed.length) placed) :
    ∃ placed', placed'.map Prod.fst = pushed ++ placed.map Prod.fst ∧
      CoversFrom text target start idx placed' := by
  by_cases hnil : content = []
  · subst hnil
    rw [if_pos rfl] at hpushed
    subst hpushed
    exact ⟨placed, rfl, h.skip hslice hstart hcut⟩
  · rw [if_neg hnil] at hpushed
    subst hpushed
    exact ⟨_, rfl, h.push hslice hsmall hnil hstart hcut⟩

/-- With enough fuel the loop ends, and its chunks cover the text from `start` on. -/
theorem chunkLoop_covers (htarget : 0 < target)
    {fuel : ℕ} (hfuel : trimmed.length < start + fuel) (hstart : start < trimmed.length) :
    ∃ placed, chunkLoop trimmed (target * charsPerToken) overlapChars fuel start idx =
        .ok (placed.map Prod.fst) ∧ CoversFrom trimmed target start idx placed := by
  induction fuel generalizing start idx with
  | zero => omega
  | succ fuel ih =>
    have hchars : 0 < target * charsPerToken := Nat.mul_pos htarget (by decide)
    have hgood := windowCut_good hchars hstart
    set cut := windowCut trimmed (target * charsPerToken) start with hcut
    obtain ⟨p, hslice⟩ := trimmed_slice_spec (Nat.le_of_lt hgood.start_lt) hgood.le_length
    set content := trimUnits (sliceUnits trimmed start cut) with hcontent
    have hsmall : estimateTokens content ≤ target := by
      refine estimateTokens_le htarget ((length_le_of_goodCut ?_ hgood hslice).trans ?_)
      · rw [windowEnd]
        omega
      · rw [windowEnd]
        omega
    rw [chunkLoop, if_pos hstart]
    dsimp only
    rw [← hcut, ← hcontent]
    set pushed : List Chunk :=
      if content = [] then [] else [⟨idx, content, estimateTokens content⟩] with hpushed
    have hlt := hgood.start_lt
    split_ifs with hlast
    · obtain ⟨placed, hplaced, hcovers⟩ :=
        CoversFrom.window hpushed hslice hsmall hlt.le le_rfl (.nil hlast)
      exact ⟨placed, by rw [hplaced, List.map_nil, List.append_nil], hcovers⟩
    · have hnext : max (cut - overlapChars) (start + 1) ≤ cut := by omega
      obtain ⟨rest, hrest, hcovers⟩ :=
        @ih (max (cut - overlapChars) (start + 1)) (idx + pushed.length) (by omega) (by omega)
      obtain ⟨placed, hplaced, hcovers⟩ :=
        CoversFrom.window hpushed hslice hsmall (by omega) hnext hcovers
      exact ⟨placed, by rw [hrest, hplaced]; rfl, hcovers⟩

/-- Chunking ends, and the chunks cover the document: each is a contiguous piece of the trimmed
text, they come in order of position, together they have everything that is not blank, and none is
larger than the target. -/
theorem chunkDocument_covers (text : Utf16Text) (opts : ChunkOptions)
    (hoverlap : opts.overlap < opts.target) :
    ∃ placed, chunkDocument text opts = .ok (placed.map Prod.fst) ∧
      CoversFrom (trimUnits text) opts.target 0 0 placed := by
  rw [chunkDocument, if_neg (Nat.not_le.2 hoverlap)]
  dsimp only
  have htarget : 0 < opts.target := Nat.zero_lt_of_lt hoverlap
  by_cases hnil : trimUnits text = []
  · rw [if_pos hnil, hnil]
    exact ⟨[], rfl, .nil le_rfl⟩
  · have hpos := List.length_pos_iff.2 hnil
    rw [if_neg hnil]
    split_ifs with hfits
    · refine ⟨[(⟨0, trimUnits text, estimateTokens (trimUnits text)⟩, 0)], rfl, ?_⟩
      have hwhole : TrimmedSlice (trimUnits text) 0 (trimUnits text).length 0 (trimUnits text) :=
        ⟨le_rfl, by omega, List.prefix_rfl, fun k hk hk' => by omega, fun k hk hk' => by omega,
          fun hne => ⟨head_trimUnits hne, by rw [Nat.zero_add]; exact last_trimUnits hne⟩⟩
      exact CoversFrom.push hwhole (estimateTokens_le htarget hfits) hnil (Nat.zero_le _) le_rfl
        (.nil le_rfl)
    · exact chunkLoop_covers htarget (by omega) hpos

/-- A text of two sentences and a space too many, in chunks of at most three tokens. -/
theorem chunkDocument_covers_sample :
    ∃ placed, chunkDocument (utf16 "One two three.  Four five. ") ⟨some 3, some 1⟩ =
        .ok (placed.map Prod.fst) ∧
      CoversFrom (trimUnits (utf16 "One two three.  Four five. ")) 3 0 0 placed :=
  chunkDocument_covers _ ⟨some 3, some 1⟩ (by decide)

/-! ### Chunks and pairs -/

/-- The window behind another one. -/
def NextWindow (trimmed : Utf16Text) (targetChars overlapChars start start' : ℕ) : Prop :=
  windowCut trimmed targetChars start < trimmed.length ∧
    start' = max (windowCut trimmed targetChars start - overlapChars) (start + 1)

/-- From the window at `start` on, no window starts inside a pair, and none is cut inside a pair
for want of a boundary. -/
def AvoidsPairs (trimmed : Utf16Text) (targetChars overlapChars start : ℕ) : Prop :=
  ∀ s, Relation.ReflTransGen (NextWindow trimmed targetChars overlapChars) start s →
    ¬ InsidePair trimmed s ∧
      (windowCut trimmed targetChars s = windowEnd trimmed targetChars s →
        ¬ InsidePair trimmed (windowEnd trimmed targetChars s))

/-- The cut at a paragraph, a sentence or a space is not inside a pair. -/
theorem not_insidePair_of_boundary
    (h : GoodCut text start stop cut) (hcut : cut ≠ stop) : ¬ InsidePair text cut := by
  intro hinside
  have hlead := (lead_trail_of_blank (h.boundary.resolve_left hcut)).1
  rw [hinside.2.1] at hlead
  cases hlead

/-- The chunk of a window is well formed exactly if the window neither starts inside a pair nor is
cut inside one for want of a boundary. -/
theorem wellFormed_window_iff (h : WellFormed trimmed)
    (hpos : 0 < targetChars) (hstart : start < trimmed.length) :
    WellFormed (trimUnits (sliceUnits trimmed start (windowCut trimmed targetChars start))) ↔
      ¬ InsidePair trimmed start ∧
        (windowCut trimmed targetChars start = windowEnd trimmed targetChars start →
          ¬ InsidePair trimmed (windowEnd trimmed targetChars start)) := by
  have hgood := windowCut_good hpos hstart
  rw [wellFormed_trimUnits, wellFormed_sliceUnits h hgood.start_lt]
  refine and_congr_right fun _ => ⟨fun hcut heq => heq ▸ hcut, fun hend => ?_⟩
  by_cases hcut : windowCut trimmed targetChars start = windowEnd trimmed targetChars start
  · rw [hcut]
    exact hend hcut
  · exact not_insidePair_of_boundary hgood hcut

/-- The windows from one on are that one and those from the next on. -/
theorem avoidsPairs_iff : AvoidsPairs trimmed targetChars overlapChars start ↔
      (¬ InsidePair trimmed start ∧
        (windowCut trimmed targetChars start = windowEnd trimmed targetChars start →
          ¬ InsidePair trimmed (windowEnd trimmed targetChars start))) ∧
      ∀ start', NextWindow trimmed targetChars overlapChars start start' →
        AvoidsPairs trimmed targetChars overlapChars start' := by
  refine ⟨fun h => ⟨h start .refl, fun start' hnext s hs => h s (.head hnext hs)⟩, fun h s hs => ?_⟩
  rcases hs.cases_head with rfl | ⟨start', hnext, hs⟩
  · exact h.1
  · exact h.2 start' hnext s hs

/-- The chunks that the loop makes from `start` on are well formed exactly if the windows from
there on avoid the pairs. -/
theorem chunkLoop_wellFormed_iff (h : WellFormed trimmed) (hpos : 0 < targetChars) {fuel : ℕ}
    (hstart : start < trimmed.length) {chunks : List Chunk}
    (hchunks : chunkLoop trimmed targetChars overlapChars fuel start idx = .ok chunks) :
    (∀ c ∈ chunks, WellFormed c.content) ↔
      AvoidsPairs trimmed targetChars overlapChars start := by
  induction fuel generalizing start idx chunks with
  | zero => cases hchunks
  | succ fuel ih =>
    rw [chunkLoop, if_pos hstart] at hchunks
    dsimp only at hchunks
    rw [avoidsPairs_iff, ← wellFormed_window_iff h hpos hstart]
    have hgood := windowCut_good hpos hstart
    set cut := windowCut trimmed targetChars start with hcut
    set content := trimUnits (sliceUnits trimmed start cut) with hcontent
    set pushed : List Chunk :=
      if content = [] then [] else [⟨idx, content, estimateTokens content⟩] with hpushed
    have hwindow : (∀ c ∈ pushed, WellFormed c.content) ↔ WellFormed content := by
      by_cases hnil : content = []
      · rw [hpushed, if_pos hnil, hnil]
        exact iff_of_true (by simp) ⟨rfl, fun _ => rfl⟩
      · rw [hpushed, if_neg hnil]
        simp
    rw [← hwindow]
    split_ifs at hchunks with hlast
    · obtain rfl := Except.ok.inj hchunks
      refine (and_iff_left fun start' hnext => ?_).symm
      exact absurd hlast (Nat.not_le.2 hnext.1)
    · obtain ⟨rest, hrest, rfl⟩ : ∃ rest, chunkLoop trimmed targetChars overlapChars fuel
          (max (cut - overlapChars) (start + 1)) (idx + pushed.length) = .ok rest ∧
            pushed ++ rest = chunks := by
        cases hrun : chunkLoop trimmed targetChars overlapChars fuel
          (max (cut - overlapChars) (start + 1)) (idx + pushed.length) with
        | error e => rw [hrun] at hchunks; cases hchunks
        | ok rest => rw [hrun] at hchunks; exact ⟨rest, rfl, Except.ok.inj hchunks⟩
      have hlt := hgood.start_lt
      have hrec := ih (by omega) hrest
      have hnext : (∀ start', NextWindow trimmed targetChars overlapChars start start' →
          AvoidsPairs trimmed targetChars overlapChars start') ↔
          AvoidsPairs trimmed targetChars overlapChars (max (cut - overlapChars) (start + 1)) :=
        ⟨fun hall => hall _ ⟨Nat.not_le.1 hlast, rfl⟩, fun hone start' hstart' =>
          hstart'.2 ▸ hone⟩
      rw [hnext, ← hrec]
      simp only [List.mem_append, or_imp, forall_and]

/-- The chunks of a well-formed text are well formed exactly if no window starts inside a pair, and
none is cut inside a pair for want of a boundary. -/
theorem chunks_wellFormed_iff {text : Utf16Text} (h : WellFormed text) (opts : ChunkOptions)
    {chunks : List Chunk} (hchunks : chunkDocument text opts = .ok chunks) :
    (∀ c ∈ chunks, WellFormed c.content) ↔
      AvoidsPairs (trimUnits text) (opts.target * charsPerToken) (opts.overlap * charsPerToken)
        0 := by
  have htrimmed := (wellFormed_trimUnits text).2 h
  rw [chunkDocument] at hchunks
  dsimp only at hchunks
  split_ifs at hchunks with hoverlap hnil hfits
  · obtain rfl := Except.ok.inj hchunks
    refine iff_of_true (by simp) (avoidsPairs_iff.2 ⟨⟨fun hi => absurd hi.1 (by omega), fun _ => ?_⟩,
      fun start' hnext => ?_⟩)
    · rw [hnil]
      exact fun hi => absurd hi.2.1 (by rw [unitAt_nil]; decide)
    · rw [hnil] at hnext
      exact absurd hnext.1 (Nat.not_lt_zero _)
  · obtain rfl := Except.ok.inj hchunks
    have hend : windowEnd (trimUnits text) (opts.target * charsPerToken) 0 =
        (trimUnits text).length := by
      rw [windowEnd, Nat.zero_add]
      exact Nat.min_eq_right hfits
    refine iff_of_true (by simpa using htrimmed) (avoidsPairs_iff.2
      ⟨⟨fun hi => absurd hi.1 (by omega), fun _ hi => ?_⟩, fun start' hnext => ?_⟩)
    · rw [hend] at hi
      have htrail := hi.2.2
      rw [unitAt_of_length_le le_rfl] at htrail
      cases htrail
    · have hcut := hnext.1
      rw [windowCut, hend, if_neg (lt_irrefl _)] at hcut
      exact absurd hcut (lt_irrefl _)
  · have htarget : 0 < opts.target := Nat.zero_lt_of_lt (Nat.not_le.1 hoverlap)
    exact chunkLoop_wellFormed_iff htrimmed (Nat.mul_pos htarget (by decide))
      (List.length_pos_iff.2 hnil) hchunks

/-- A text whose windows avoid its pair. -/
theorem chunks_wellFormed_iff_sample :
    (∀ c ∈ [Chunk.mk 0 (utf16 "ab") 1, Chunk.mk 1 (utf16 "😀 c") 1],
        WellFormed c.content) ↔ AvoidsPairs (trimUnits (utf16 "ab  😀 c")) 4 0 0 :=
  chunks_wellFormed_iff (wellFormed_utf16 "ab  😀 c") ⟨some 1, some 0⟩ (by decide +kernel)

/-- A text of characters whose first chunk ends inside a pair: the window ends there, and there is
no boundary before. -/
theorem chunk_splits_pair :
    WellFormed (utf16 "abc😀def") ∧
      chunkDocument (utf16 "abc😀def") ⟨some 1, some 0⟩ =
        .ok [⟨0, [97, 98, 99, 0xd83d], 1⟩, ⟨1, [0xde00, 100, 101, 102], 1⟩] ∧
      ¬ WellFormed [97, 98, 99, 0xd83d] ∧ ¬ WellFormed [0xde00, 100, 101, 102] :=
  ⟨wellFormed_utf16 _, by decide +kernel, fun h => absurd (h.2 3) (by decide),
    fun h => absurd h.1 (by decide)⟩

end Munin.Kb
