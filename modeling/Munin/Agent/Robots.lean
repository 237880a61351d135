import Munin.Conversations.AuthenticationResults
import Munin.Foundations.Wildcards

/-!
# The rules of robots.txt

A site says in robots.txt which of its paths a crawler may fetch. Its lines are records: the names
of crawlers, and behind them the rules for these, patterns of paths that are allowed or not.

* **`matchesRobotsPattern`**, **`parseRobots`**, **`isAllowed`** — the matching of a path, the
  reading of the text, and the verdict.
* **`matchesRobotsPattern_iff`** — the matching is the one that the pattern means.
* **`InForce`** — a rule is for a crawler that is named before it, with no rule and then another
  name between them. The rules that are read are these (`mem_rules_iff`).
* **`robots_rules_applied`** — so the verdict is that of the longest rule in force that matches, in
  favour of the crawler if there are several.
-/

namespace Munin.Agent

open Foundations Conversations

/-! ### Patterns -/

/-- `pattern.endsWith('$')`. -/
def isAnchored (pattern : Utf16Text) : Bool := pattern.getLast? = some 0x24

/-- A pattern without its anchor. -/
def patternBody (pattern : Utf16Text) : Utf16Text :=
  if isAnchored pattern then pattern.dropLast else pattern

def patternLength (pattern : Utf16Text) : ℕ :=
  if isAnchored pattern then pattern.length - 1 else pattern.length

/-- The match of the segments behind the first one, whose last is `last`. -/
def matchesSegments (path : Utf16Text) (anchored : Bool) (first : Utf16Text)
    (middle : List Utf16Text) (last : Utf16Text) : Bool :=
  match seek path middle first.length with
  | none => false
  | some index =>
    if last = [] then true
    else if !anchored then (indexOf last path index).isSome
    else index + last.length ≤ path.length && last.isSuffixOf path

def matchesRobotsPattern (pattern path : Utf16Text) : Bool :=
  match (patternBody pattern).splitOn 0x2a with
  | [] => true
  | first :: segments =>
    if !first.isPrefixOf path then false
    else
      match segments.getLast? with
      | none => if isAnchored pattern then path.length = first.length else true
      | some last => matchesSegments path (isAnchored pattern) first segments.dropLast last

/-! ### Lines -/

structure RobotsRule where
  allow : Bool
  pattern : Utf16Text
  deriving DecidableEq

/-- What a line says; the pattern of a rule may be empty. -/
inductive RobotsLine where
  | sitemap (url : Utf16Text)
  | agent (name : Utf16Text)
  | rule (rule : RobotsRule)
  deriving DecidableEq

/-- `line.replace(/#.*$/, '')`; the dot matches no line terminator. -/
def stripComment : Utf16Text → Utf16Text
  | [] => []
  | u :: rest =>
    if u = 0x23 ∧ rest.all fun v => !isLineTerminator v then [] else u :: stripComment rest

section Lower

variable (lower : Utf16Text → Utf16Text)

/-- A line by its key and its value. -/
def keyedLine (key value : Utf16Text) : Option RobotsLine :=
  if key = utf16 "sitemap" then some (.sitemap value)
  else if key = utf16 "user-agent" then some (.agent (lower value))
  else if key = utf16 "allow" ∨ key = utf16 "disallow" then
    some (.rule ⟨key = utf16 "allow", value⟩)
  else none

/-- What a line says, if anything; `lower` is `toLowerCase`. -/
def readLine (rawLine : Utf16Text) : Option RobotsLine :=
  match (trimUnits (stripComment rawLine)).splitOn 0x3a with
  | keyRaw :: part :: parts =>
    if keyRaw = [] then none
    else
      keyedLine lower (lower (trimUnits keyRaw))
        (trimUnits ([0x3a].intercalate (part :: parts)))
  | _ => none

/-- What the lines of a text say. -/
def robotsLines (text : Utf16Text) : List RobotsLine :=
  (text.splitOn 0x0a).filterMap (readLine lower)

end Lower

/-! ### Groups -/

structure RobotsGroup where
  agents : List Utf16Text
  rules : List RobotsRule

/-- The state of the loop over the lines; the last group, if there is one, stands apart. -/
structure RobotsState where
  sitemaps : List Utf16Text
  groups : List RobotsGroup
  current : Option RobotsGroup
  sawRule : Bool

/-- One turn of the loop. -/
def readRobotsLine (st : RobotsState) : RobotsLine → RobotsState
  | .sitemap url => { st with sitemaps := st.sitemaps ++ [url] }
  | .agent name =>
    match st.current with
    | none => { st with current := some ⟨[name], []⟩, sawRule := false }
    | some group =>
      if st.sawRule then
        { st with
          groups := st.groups ++ [group], current := some ⟨[name], []⟩, sawRule := false }
      else { st with current := some { group with agents := group.agents ++ [name] } }
  | .rule rule =>
    match st.current with
    | none => st
    | some group =>
      { st with
        sawRule := true
        current := some
          { group with
            rules := if rule.pattern = [] then group.rules else group.rules ++ [rule] } }

/-- What robots.txt says to the crawler. -/
structure RobotsRules where
  sitemaps : List Utf16Text
  rules : List RobotsRule

/-- `USER_AGENT`. -/
def userAgent : Utf16Text := utf16 "Munin-Crawler/1.0 (+https://getmunin.com)"

section Lower

variable (lower : Utf16Text → Utf16Text)

/-- Whether a name is for the crawler. -/
def namesCrawler (name : Utf16Text) : Bool :=
  name = utf16 "*" || (name ≠ [] && name.isPrefixOf (lower userAgent))

/-- The loop over the lines. -/
def readRobots (lines : List RobotsLine) : RobotsState :=
  lines.foldl readRobotsLine ⟨[], [], none, false⟩

def parseRobots (text : Utf16Text) : RobotsRules :=
  let st := readRobots (robotsLines lower text)
  ⟨st.sitemaps, ((st.groups ++ st.current.toList).filter fun group =>
    group.agents.any (namesCrawler lower)).flatMap fun group => group.rules⟩

end Lower

/-- One turn of the loop over the rules, with `best` and `bestLength`. -/
def betterRule (path : Utf16Text) (best : Option RobotsRule × ℤ) (rule : RobotsRule) :
    Option RobotsRule × ℤ :=
  if !matchesRobotsPattern rule.pattern path then best
  else if best.2 < patternLength rule.pattern ∨
      (patternLength rule.pattern : ℤ) = best.2 ∧ rule.allow = true then
    (some rule, patternLength rule.pattern)
  else best

def isAllowed (robots : RobotsRules) (path : Utf16Text) : Bool :=
  ((robots.rules.foldl (betterRule path) (none, -1)).1.map fun rule => rule.allow).getD true

/-! ### What a pattern means -/

/-- A path matches a pattern: a part of it from its beginning matches the pattern with its
wildcards, all of it if the pattern is anchored. -/
def RobotsMatch (pattern path : Utf16Text) : Prop :=
  ∃ matched rest, path = matched ++ rest ∧ WildMatch 0x2a (patternBody pattern) matched ∧
    (isAnchored pattern = true → rest = [])

variable {path : Utf16Text}

theorem matchesSegments_iff {first last : Utf16Text} {middle : List Utf16Text}
    (anchored : Bool) (hfirst : first <+: path) :
    matchesSegments path anchored first middle last = true ↔
      ∃ j, PlacedIn path (middle ++ [last]) first.length j ∧
        (anchored = true → j = path.length) := by
  have hle := hfirst.length_le
  simp only [placed_concat_iff]
  constructor
  · intro h
    rw [matchesSegments] at h
    split at h
    · cases h
    · rename_i index hindex
      have hplaced := placed_of_seek hle hindex
      have hbound := hplaced.le_length hle
      split_ifs at h with hnil hanchored
      · -- an empty segment stands anywhere, also at the end
        subst hnil
        exact ⟨path.length, ⟨index, path.length, hplaced, hbound, List.nil_prefix, le_rfl, rfl⟩,
          fun _ => rfl⟩
      · obtain ⟨k, hk⟩ := Option.isSome_iff_exists.1 h
        obtain ⟨hik, hoccurs, -⟩ := indexOf_eq_some hk
        refine ⟨_, ⟨index, k, hplaced, hik, hoccurs, hoccurs.le_length hnil, rfl⟩, fun htrue => ?_⟩
        rw [htrue] at hanchored
        cases hanchored
      · rw [Bool.and_eq_true, decide_eq_true_eq, List.isSuffixOf_iff_suffix] at h
        obtain ⟨before, hbefore⟩ := h.2
        have hlength := congrArg List.length hbefore
        rw [List.length_append] at hlength
        refine ⟨path.length, ⟨index, before.length, hplaced, by omega, ?_, by omega, by omega⟩,
          fun _ => rfl⟩
        have hdrop : path.drop before.length = last := by rw [← hbefore, List.drop_left]
        exact hdrop.symm ▸ List.prefix_rfl
  · rintro ⟨j, ⟨m, k, hm, hmk, hoccurs, hk, rfl⟩, hend⟩
    obtain ⟨index, hindex, hindex'⟩ := exists_seek_le hm first.length le_rfl
    rw [matchesSegments, hindex]
    simp only
    split_ifs with hnil hanchored
    · rfl
    · rw [Option.isSome_iff_ne_none]
      exact fun hnone => indexOf_eq_none hnil hnone (by omega : index ≤ k) hoccurs
    · have hend' := hend (by simpa using hanchored)
      rw [Bool.and_eq_true, decide_eq_true_eq, List.isSuffixOf_iff_suffix]
      refine ⟨by omega, ?_⟩
      obtain ⟨behind, hbehind⟩ := hoccurs
      have hlength := congrArg List.length hbehind
      rw [List.length_append, List.length_drop] at hlength
      have hnone : behind = [] := List.length_eq_zero_iff.1 (by omega)
      rw [hnone, List.append_nil] at hbehind
      rw [hbehind]
      exact List.drop_suffix k path

/-- A path matches a pattern if its segments stand in it. -/
theorem robotsMatch_iff {pattern first : Utf16Text} {segments : List Utf16Text}
    (hsplit : (patternBody pattern).splitOn 0x2a = first :: segments) :
    RobotsMatch pattern path ↔ first <+: path ∧
      ∃ j, PlacedIn path segments first.length j ∧ (isAnchored pattern = true → j = path.length) :=
    by
  constructor
  · rintro ⟨matched, rest, rfl, hmatch, hend⟩
    obtain ⟨_, _, gap, hsplit', rfl, hgap⟩ := wildMatch_iff_gapped.1 hmatch
    obtain ⟨rfl, rfl⟩ := List.cons.inj (hsplit.symm.trans hsplit')
    rw [List.append_assoc]
    refine ⟨List.prefix_append _ _, _, placed_of_gapped hgap ?_ List.drop_left, fun h => ?_⟩
    · rw [List.length_append]
      exact Nat.le_add_right _ _
    · rw [hend h, List.append_nil, List.length_append]
  · rintro ⟨⟨behind, rfl⟩, j, hplaced, hend⟩
    obtain ⟨gap, rest, hdrop, hj, hgap⟩ := gapped_of_placed hplaced
      (by rw [List.length_append]; exact Nat.le_add_right _ _)
    rw [List.drop_left] at hdrop
    subst hdrop
    refine ⟨first ++ gap, rest, (List.append_assoc _ _ _).symm,
      wildMatch_iff_gapped.2 ⟨first, segments, gap, hsplit, rfl, hgap⟩, fun h => ?_⟩
    have hlength := hend h
    rw [← hj, List.length_append, List.length_append] at hlength
    exact List.length_eq_zero_iff.1 (by omega)

/-- **The matching is the one that the pattern means**. -/
theorem matchesRobotsPattern_iff (pattern path : Utf16Text) :
    matchesRobotsPattern pattern path = true ↔ RobotsMatch pattern path := by
  obtain ⟨first, segments, hsplit⟩ :=
    List.exists_cons_of_ne_nil (List.splitOn_ne_nil 0x2a (patternBody pattern))
  rw [robotsMatch_iff hsplit, matchesRobotsPattern, hsplit]
  simp only [Bool.not_eq_true', ← Bool.not_eq_true, List.isPrefixOf_iff_prefix, ite_not]
  by_cases hfirst : first <+: path
  · rw [if_pos hfirst]
    rcases segments.eq_nil_or_concat with rfl | ⟨middle, last, rfl⟩
    · -- without a star the matching is that of a beginning
      simp only [List.getLast?_nil]
      constructor
      · intro h
        refine ⟨hfirst, first.length, .nil _, fun hanchored => ?_⟩
        rw [if_pos hanchored, decide_eq_true_eq] at h
        exact h.symm
      · rintro ⟨-, j, hplaced, hend⟩
        cases hplaced
        split_ifs with hanchored
        · exact decide_eq_true (hend hanchored).symm
        · rfl
    · simp only [List.concat_eq_append, List.getLast?_concat, List.dropLast_concat]
      rw [matchesSegments_iff _ hfirst]
      exact ⟨fun h => ⟨hfirst, h⟩, fun h => h.2⟩
  · rw [if_neg hfirst]
    exact ⟨fun h => absurd h Bool.false_ne_true, fun h => absurd h.1 hfirst⟩

/-! ### The rules in force -/

section InForce

/-- There is no rule with another name behind it, so that no group ends within the lines. -/
def SameGroup (lines : List RobotsLine) : Prop :=
  lines.Pairwise fun line later => ∀ rule name, line = .rule rule → later ≠ .agent name

/-- A rule that is not empty stands behind a name, in the group of this name. -/
def InForce (names : Utf16Text → Prop) (lines : List RobotsLine) (rule : RobotsRule) : Prop :=
  rule.pattern ≠ [] ∧ ∃ before name between after,
    lines = before ++ .agent name :: between ++ .rule rule :: after ∧ names name ∧
    SameGroup between

/-- The lines end within the group of a name, `between` behind it. -/
def OpenBehind (lines : List RobotsLine) (name : Utf16Text) (between : List RobotsLine) : Prop :=
  (∃ before, lines = before ++ .agent name :: between) ∧ SameGroup between

variable {lines : List RobotsLine} {line : RobotsLine} {st : RobotsState}

theorem sameGroup_concat : SameGroup (lines ++ [line]) ↔ SameGroup lines ∧
      ∀ rule, .rule rule ∈ lines → ∀ name, line ≠ .agent name := by
  rw [SameGroup, List.pairwise_append]
  simp only [List.mem_singleton, List.pairwise_singleton, true_and, forall_eq]
  constructor
  · rintro ⟨h, hline⟩
    exact ⟨h, fun rule hrule name => hline _ hrule rule name rfl⟩
  · rintro ⟨h, hline⟩
    refine ⟨h, ?_⟩
    rintro _ hrule rule name rfl
    exact hline rule hrule name

variable {between : List RobotsLine}

theorem openBehind_concat {name : Utf16Text} :
    OpenBehind (lines ++ [line]) name between ↔ (line = .agent name ∧ between = []) ∨
      ∃ shorter, between = shorter ++ [line] ∧ OpenBehind lines name shorter ∧
        ∀ rule, .rule rule ∈ shorter → ∀ name, line ≠ .agent name := by
  constructor
  · rintro ⟨⟨before, hlines⟩, hsame⟩
    rcases between.eq_nil_or_concat with rfl | ⟨shorter, last, rfl⟩
    · exact .inl ⟨(List.append_inj' hlines rfl).2 |> List.cons.inj |>.1, rfl⟩
    · rw [List.concat_eq_append] at hlines hsame ⊢
      rw [← List.cons_append, ← List.append_assoc] at hlines
      obtain ⟨hshorter, hlast⟩ := List.append_inj' hlines rfl
      obtain rfl := (List.cons.inj hlast).1
      rw [sameGroup_concat] at hsame
      exact .inr ⟨shorter, rfl, ⟨⟨before, hshorter⟩, hsame.1⟩, hsame.2⟩
  · rintro (⟨rfl, rfl⟩ | ⟨shorter, rfl, ⟨⟨before, rfl⟩, hsame⟩, hline⟩)
    · exact ⟨⟨lines, rfl⟩, List.Pairwise.nil⟩
    · exact ⟨⟨before, by simp⟩, sameGroup_concat.2 ⟨hsame, hline⟩⟩

theorem inForce_concat {names : Utf16Text → Prop} {rule : RobotsRule} :
    InForce names (lines ++ [line]) rule ↔ InForce names lines rule ∨
      line = .rule rule ∧ rule.pattern ≠ [] ∧
        ∃ name between, OpenBehind lines name between ∧ names name := by
  constructor
  · rintro ⟨hne, before, name, between, after, hlines, hname, hsame⟩
    rcases after.eq_nil_or_concat with rfl | ⟨shorter, last, rfl⟩
    · obtain ⟨rfl, hline⟩ := List.append_inj' hlines rfl
      exact .inr ⟨(List.cons.inj hline).1, hne, name, between, ⟨⟨before, rfl⟩, hsame⟩, hname⟩
    · rw [List.concat_eq_append, ← List.cons_append, ← List.append_assoc] at hlines
      obtain ⟨rfl, -⟩ := List.append_inj' hlines rfl
      exact .inl ⟨hne, before, name, between, shorter, rfl, hname, hsame⟩
  · rintro (⟨hne, before, name, between, after, rfl, hname, hsame⟩ |
      ⟨rfl, hne, name, between, ⟨⟨before, rfl⟩, hsame⟩, hname⟩)
    · exact ⟨hne, before, name, between, after ++ [line], by simp, hname, hsame⟩
    · exact ⟨hne, before, name, between, [], rfl, hname, hsame⟩

variable {names : Utf16Text → Bool}

/-- The groups of a state, the last one with them. -/
def RobotsState.allGroups (st : RobotsState) : List RobotsGroup := st.groups ++ st.current.toList

/-- The rules of the groups with a name that counts. -/
def RobotsState.rulesFor (st : RobotsState) (names : Utf16Text → Bool) : List RobotsRule :=
  (st.allGroups.filter fun group => group.agents.any names).flatMap fun group => group.rules

/-- What the loop knows behind some lines. -/
structure IsReading (names : Utf16Text → Bool) (lines : List RobotsLine) (st : RobotsState) :
    Prop where
  agents : ∀ name, (∃ group, st.current = some group ∧ name ∈ group.agents) ↔
    ∃ between, OpenBehind lines name between
  sawRule : ∀ name between, OpenBehind lines name between →
    (st.sawRule = true ↔ ∃ rule, .rule rule ∈ between)
  noRules : st.sawRule = false → ∀ group, st.current = some group → group.rules = []
  rules : ∀ rule, rule ∈ st.rulesFor names ↔ InForce (fun name => names name = true) lines rule

theorem isReading_nil : IsReading names [] ⟨[], [], none, false⟩ where
  agents name := by
    constructor
    · rintro ⟨_, h, -⟩
      cases h
    · rintro ⟨_, ⟨before, h⟩, -⟩
      exact absurd h (by simp)
  sawRule name between := by
    rintro ⟨⟨before, h⟩, -⟩
    exact absurd h (by simp)
  noRules _ _ h := by cases h
  rules rule := by
    constructor
    · intro h
      cases h
    · rintro ⟨-, before, name, between, after, h, -⟩
      exact absurd h (by simp)

theorem IsReading.sitemap (h : IsReading names lines st) (url : Utf16Text) :
    IsReading names (lines ++ [.sitemap url]) (readRobotsLine st (.sitemap url)) where
  agents name := by
    refine (h.agents name).trans ⟨fun ⟨between, hopen⟩ => ?_, fun ⟨between, hopen⟩ => ?_⟩
    · exact ⟨_, openBehind_concat.2 (.inr ⟨between, rfl, hopen, fun _ _ _ => nofun⟩)⟩
    · rcases openBehind_concat.1 hopen with ⟨hline, -⟩ | ⟨shorter, -, hopen, -⟩
      · cases hline
      · exact ⟨shorter, hopen⟩
  sawRule name between hopen := by
    rcases openBehind_concat.1 hopen with ⟨hline, -⟩ | ⟨shorter, rfl, hopen, -⟩
    · cases hline
    · have hiff := h.sawRule name shorter hopen
      simpa [readRobotsLine] using hiff
  noRules := h.noRules
  rules rule := by
    rw [inForce_concat]
    refine (h.rules rule).trans ⟨.inl, ?_⟩
    rintro (hrule | ⟨hline, -⟩)
    · exact hrule
    · cases hline

/-- A name behind a rule begins a group, as the first name does. -/
theorem readRobotsLine_of_closed (h : st.current = none ∨ st.sawRule = true) (name : Utf16Text) :
    readRobotsLine st (.agent name) = ⟨st.sitemaps, st.allGroups, some ⟨[name], []⟩, false⟩ := by
  obtain ⟨sitemaps, groups, current, sawRule⟩ := st
  cases current with
  | none => simp [readRobotsLine, RobotsState.allGroups]
  | some group =>
    obtain rfl : sawRule = true := h.resolve_left nofun
    rfl

/-- If all names have rules behind them, then only the new name is open. -/
theorem openBehind_agent
    (hclosed : ∀ name between, OpenBehind lines name between → ∃ rule, .rule rule ∈ between)
    {name name' : Utf16Text} :
    OpenBehind (lines ++ [.agent name]) name' between ↔ name' = name ∧ between = [] := by
  rw [openBehind_concat]
  constructor
  · rintro (⟨hline, rfl⟩ | ⟨shorter, rfl, hopen, hline⟩)
    · exact ⟨(RobotsLine.agent.inj hline).symm, rfl⟩
    · obtain ⟨rule, hrule⟩ := hclosed _ _ hopen
      exact absurd rfl (hline rule hrule name)
  · rintro ⟨rfl, rfl⟩
    exact .inl ⟨rfl, rfl⟩

theorem IsReading.agent (h : IsReading names lines st) (name : Utf16Text) :
    IsReading names (lines ++ [.agent name]) (readRobotsLine st (.agent name)) := by
  have hrules : ∀ rule, InForce (fun name => names name = true) (lines ++ [.agent name]) rule ↔
      rule ∈ st.rulesFor names := by
    intro rule
    rw [inForce_concat, h.rules rule]
    refine ⟨?_, .inl⟩
    rintro (hrule | ⟨hline, -⟩)
    · exact hrule
    · cases hline
  by_cases hclosed : st.current = none ∨ st.sawRule = true
  · have hopen : ∀ {name' : Utf16Text} {between : List RobotsLine},
        OpenBehind (lines ++ [.agent name]) name' between ↔ name' = name ∧ between = [] := by
      refine openBehind_agent fun name' between hbehind => ?_
      rw [← h.sawRule name' between hbehind]
      refine hclosed.resolve_left fun hnone => ?_
      obtain ⟨group, hgroup, -⟩ := (h.agents name').2 ⟨between, hbehind⟩
      cases hnone.symm.trans hgroup
    rw [readRobotsLine_of_closed hclosed]
    refine ⟨fun name' => ?_, fun name' between hbehind => ?_, fun _ group hgroup => ?_,
      fun rule => ?_⟩
    · simp [hopen]
    · obtain ⟨-, rfl⟩ := hopen.1 hbehind
      simp
    · obtain rfl := Option.some.inj hgroup
      rfl
    · simp [hrules, RobotsState.rulesFor, RobotsState.allGroups, List.filter_append,
        List.filter_cons, apply_ite]
  · obtain ⟨group, hgroup⟩ := Option.ne_none_iff_exists'.1 (not_or.1 hclosed).1
    have hsaw : st.sawRule = false := Bool.not_eq_true _ ▸ (not_or.1 hclosed).2
    have hstep : readRobotsLine st (.agent name) =
        { st with current := some { group with agents := group.agents ++ [name] } } := by
      rw [readRobotsLine, hgroup]
      simp [hsaw]
    have hbare : ∀ name' between, OpenBehind lines name' between →
        ∀ rule, .rule rule ∉ between := by
      intro name' between hbehind rule hrule
      have := (h.sawRule name' between hbehind).2 ⟨rule, hrule⟩
      rw [hsaw] at this
      cases this
    have hnone : group.rules = [] := h.noRules hsaw group hgroup
    rw [hstep]
    refine ⟨fun name' => ?_, fun name' between hbehind => ?_, fun _ group' hgroup' => ?_,
      fun rule => ?_⟩
    · have hagents := h.agents name'
      simp only [hgroup, Option.some.injEq, exists_eq_left'] at hagents ⊢
      rw [List.mem_append, List.mem_singleton, hagents]
      constructor
      · rintro (⟨between, hbehind⟩ | rfl)
        · exact ⟨_, openBehind_concat.2
            (.inr ⟨between, rfl, hbehind, fun rule hrule => absurd hrule (hbare _ _ hbehind rule)⟩)⟩
        · exact ⟨[], openBehind_concat.2 (.inl ⟨rfl, rfl⟩)⟩
      · rintro ⟨between, hbehind⟩
        rcases openBehind_concat.1 hbehind with ⟨hline, -⟩ | ⟨shorter, -, hbehind, -⟩
        · exact .inr (RobotsLine.agent.inj hline).symm
        · exact .inl ⟨shorter, hbehind⟩
    · simp only [hsaw, Bool.false_eq_true, false_iff, not_exists]
      rcases openBehind_concat.1 hbehind with ⟨-, rfl⟩ | ⟨shorter, rfl, hbehind, -⟩
      · simp
      · simpa using hbare name' shorter hbehind
    · obtain rfl := Option.some.inj hgroup'
      exact hnone
    · -- the group has no rules yet, so that a further name brings none into force
      simp [hrules, RobotsState.rulesFor, RobotsState.allGroups, List.filter_append,
        List.filter_cons, apply_ite, hgroup, hnone]

theorem IsReading.rule (h : IsReading names lines st) (rule : RobotsRule) :
    IsReading names (lines ++ [.rule rule]) (readRobotsLine st (.rule rule)) := by
  have hopen : ∀ name, (∃ between, OpenBehind lines name between) ↔
      ∃ between, OpenBehind (lines ++ [.rule rule]) name between := by
    intro name
    refine ⟨fun ⟨between, hbehind⟩ => ?_, fun ⟨between, hbehind⟩ => ?_⟩
    · exact ⟨_, openBehind_concat.2 (.inr ⟨between, rfl, hbehind, fun _ _ _ => nofun⟩)⟩
    · rcases openBehind_concat.1 hbehind with ⟨hline, -⟩ | ⟨shorter, -, hbehind, -⟩
      · cases hline
      · exact ⟨shorter, hbehind⟩
  cases hcurrent : st.current with
  | none =>
    have hclosed : ∀ name between, ¬ OpenBehind lines name between := by
      intro name between hbehind
      obtain ⟨group, hgroup, -⟩ := (h.agents name).2 ⟨between, hbehind⟩
      cases hgroup.symm.trans hcurrent
    have hstep : readRobotsLine st (.rule rule) = st := by simp [readRobotsLine, hcurrent]
    rw [hstep]
    refine ⟨fun name => (h.agents name).trans (hopen name), fun name between hbehind => ?_,
      h.noRules, fun other => ?_⟩
    · obtain ⟨between, hbehind⟩ := (hopen name).2 ⟨between, hbehind⟩
      exact absurd hbehind (hclosed name between)
    · rw [inForce_concat, h.rules other]
      refine ⟨.inl, ?_⟩
      rintro (hother | ⟨-, -, name, between, hbehind, -⟩)
      · exact hother
      · exact absurd hbehind (hclosed name between)
  | some group =>
    have hagents : ∀ name, name ∈ group.agents ↔ ∃ between, OpenBehind lines name between := by
      intro name
      simpa [hcurrent] using h.agents name
    refine ⟨fun name => ?_, fun name between hbehind => ?_, fun hsaw => ?_, fun other => ?_⟩
    · rw [← hopen name, ← hagents name]
      simp [readRobotsLine, hcurrent]
    · rcases openBehind_concat.1 hbehind with ⟨hline, -⟩ | ⟨shorter, rfl, -, -⟩
      · cases hline
      · simp [readRobotsLine, hcurrent]
    · simp [readRobotsLine, hcurrent] at hsaw
    · have hany : group.agents.any names = true ↔
          ∃ name between, OpenBehind lines name between ∧ names name = true := by
        simp only [List.any_eq_true, hagents]
        exact ⟨fun ⟨name, ⟨between, hbehind⟩, hname⟩ => ⟨name, between, hbehind, hname⟩,
          fun ⟨name, between, hbehind, hname⟩ => ⟨name, ⟨between, hbehind⟩, hname⟩⟩
      have hline : RobotsLine.rule rule = .rule other ↔ other = rule :=
        ⟨fun h => (RobotsLine.rule.inj h).symm, fun h => h ▸ rfl⟩
      rw [inForce_concat, ← h.rules other, ← hany, hline]
      simp only [readRobotsLine, hcurrent, RobotsState.rulesFor, RobotsState.allGroups,
        Option.toList_some, List.filter_append, List.flatMap_append, List.mem_append, or_assoc]
      refine or_congr_right ?_
      by_cases hnames : group.agents.any names = true
      · by_cases hempty : rule.pattern = []
        · simp only [hnames, hempty, List.filter_cons_of_pos, List.filter_nil, if_true, and_true]
          refine ⟨.inl, ?_⟩
          rintro (hother | ⟨rfl, hne⟩)
          · exact hother
          · exact absurd hempty hne
        · simp only [hnames, hempty, List.filter_cons_of_pos, List.filter_nil, if_false, and_true,
            List.flatMap_cons, List.flatMap_nil, List.append_nil, List.mem_append,
            List.mem_singleton]
          refine or_congr_right ⟨?_, And.left⟩
          rintro rfl
          exact ⟨rfl, hempty⟩
      · simp [hnames]

/-- What the loop knows behind all lines. -/
theorem isReading (names : Utf16Text → Bool) (lines : List RobotsLine) :
    IsReading names lines (readRobots lines) := by
  induction lines using List.reverseRecOn with
  | nil => exact isReading_nil
  | append_singleton lines line ih =>
    rw [readRobots, List.foldl_append, List.foldl_cons, List.foldl_nil]
    cases line with
    | sitemap url => exact ih.sitemap url
    | agent name => exact ih.agent name
    | rule rule => exact ih.rule rule

/-- **The rules that are read are those in force**. -/
theorem mem_rules_iff (lower : Utf16Text → Utf16Text) (text : Utf16Text) (rule : RobotsRule) :
    rule ∈ (parseRobots lower text).rules ↔
      InForce (fun name => namesCrawler lower name = true) (robotsLines lower text) rule :=
  (isReading (namesCrawler lower) (robotsLines lower text)).rules rule

end InForce

/-! ### The verdict -/

/-- The longest of some rules that match the path, those that allow it before the others; without
any, the path is allowed. -/
def Verdict (rules : RobotsRule → Prop) (path : Utf16Text) (allowed : Bool) : Prop :=
  ((∀ rule, rules rule → ¬ RobotsMatch rule.pattern path) ∧ allowed = true) ∨
  ∃ rule, rules rule ∧ RobotsMatch rule.pattern path ∧ rule.allow = allowed ∧
    ∀ other, rules other → RobotsMatch other.pattern path →
      patternLength other.pattern ≤ patternLength rule.pattern ∧
      (patternLength other.pattern = patternLength rule.pattern → other.allow = true →
        allowed = true)

/-- There is only one verdict. -/
theorem Verdict.unique {rules : RobotsRule → Prop} {a b : Bool}
    (ha : Verdict rules path a) (hb : Verdict rules path b) : a = b := by
  rcases ha with ⟨hnone, rfl⟩ | ⟨rule, hrule, hmatch, rfl, hbest⟩
  · rcases hb with ⟨-, rfl⟩ | ⟨rule, hrule, hmatch, -⟩
    · rfl
    · exact absurd hmatch (hnone rule hrule)
  · rcases hb with ⟨hnone, rfl⟩ | ⟨other, hother, hmatch', rfl, hbest'⟩
    · exact absurd hmatch (hnone rule hrule)
    · have hle := hbest other hother hmatch'
      have hle' := hbest' rule hrule hmatch
      have heq := Nat.le_antisymm hle.1 hle'.1
      exact Bool.eq_iff_iff.2 ⟨hle'.2 heq.symm, hle.2 heq⟩

/-- What the loop over the rules has found among those it has seen. -/
def IsBest (path : Utf16Text) (seen : List RobotsRule) : Option RobotsRule × ℤ → Prop
  | (none, length) => length = -1 ∧ ∀ rule ∈ seen, ¬ RobotsMatch rule.pattern path
  | (some rule, length) => length = patternLength rule.pattern ∧ rule ∈ seen ∧
      RobotsMatch rule.pattern path ∧ ∀ other ∈ seen, RobotsMatch other.pattern path →
        patternLength other.pattern ≤ patternLength rule.pattern ∧
        (patternLength other.pattern = patternLength rule.pattern → other.allow = true →
          rule.allow = true)

theorem isBest_concat {seen : List RobotsRule} {best : Option RobotsRule × ℤ}
    (h : IsBest path seen best) (rule : RobotsRule) :
    IsBest path (seen ++ [rule]) (betterRule path best rule) := by
  have hnot : (!matchesRobotsPattern rule.pattern path) = true ↔
      ¬ RobotsMatch rule.pattern path := by
    rw [← matchesRobotsPattern_iff, Bool.not_eq_true', Bool.not_eq_true]
  rw [betterRule]
  obtain ⟨_ | former, length⟩ := best
  · obtain ⟨rfl, hnone⟩ := h
    split_ifs with hmatch hbetter
    · refine ⟨rfl, fun other hother => ?_⟩
      rcases List.mem_append.1 hother with hseen | hlast
      · exact hnone other hseen
      · rw [List.mem_singleton.1 hlast]
        exact hnot.1 hmatch
    · refine ⟨rfl, List.mem_concat_self, not_not.1 (mt hnot.2 hmatch),
        fun other hother hother' => ?_⟩
      rcases List.mem_append.1 hother with hseen | hlast
      · exact absurd hother' (hnone other hseen)
      · obtain rfl := List.mem_singleton.1 hlast
        exact ⟨Nat.le_refl _, fun _ hallow => hallow⟩
    · exact absurd (.inl (by omega)) hbetter
  · obtain ⟨rfl, hmem, hformer, hbest⟩ := h
    split_ifs with hmatch hbetter
    · refine ⟨rfl, List.mem_append_left _ hmem, hformer, fun other hother hother' => ?_⟩
      rcases List.mem_append.1 hother with hseen | hlast
      · exact hbest other hseen hother'
      · exact absurd (List.mem_singleton.1 hlast ▸ hother') (hnot.1 hmatch)
    · refine ⟨rfl, List.mem_concat_self, not_not.1 (mt hnot.2 hmatch),
        fun other hother hother' => ?_⟩
      rcases List.mem_append.1 hother with hseen | hlast
      · have hle := (hbest other hseen hother').1
        -- the rule is no longer than the former, or as long and allows
        refine ⟨by omega, fun heq _ => ?_⟩
        rcases hbetter with hlt | ⟨-, hallow⟩
        · omega
        · exact hallow
      · obtain rfl := List.mem_singleton.1 hlast
        exact ⟨Nat.le_refl _, fun _ hallow => hallow⟩
    · refine ⟨rfl, List.mem_append_left _ hmem, hformer, fun other hother hother' => ?_⟩
      rcases List.mem_append.1 hother with hseen | hlast
      · exact hbest other hseen hother'
      · obtain rfl := List.mem_singleton.1 hlast
        rw [not_or, not_and] at hbetter
        refine ⟨by omega, fun heq hallow => ?_⟩
        exact absurd hallow (hbetter.2 (congrArg Nat.cast heq))

theorem isBest (path : Utf16Text) (rules : List RobotsRule) :
    IsBest path rules (rules.foldl (betterRule path) (none, -1)) := by
  induction rules using List.reverseRecOn with
  | nil => exact ⟨rfl, nofun⟩
  | append_singleton rules rule ih =>
    rw [List.foldl_append, List.foldl_cons, List.foldl_nil]
    exact isBest_concat ih rule

/-- The verdict of the loop. -/
theorem verdict_isAllowed (robots : RobotsRules) (path : Utf16Text) :
    Verdict (fun rule => rule ∈ robots.rules) path (isAllowed robots path) := by
  have hbest := isBest path robots.rules
  rw [isAllowed]
  generalize robots.rules.foldl (betterRule path) (none, -1) = best at hbest
  obtain ⟨_ | rule, length⟩ := best
  · exact .inl ⟨hbest.2, rfl⟩
  · exact .inr ⟨rule, hbest.2.1, hbest.2.2.1, rfl, hbest.2.2.2⟩

/-- The names that count, `*` and the beginnings of the crawler's name that are not empty. -/
theorem namesCrawler_iff {lower : Utf16Text → Utf16Text} {name : Utf16Text} :
    namesCrawler lower name = true ↔
      name = utf16 "*" ∨ (name ≠ [] ∧ name <+: lower userAgent) := by
  simp [namesCrawler]

/-- **The rules of robots.txt are applied as defined**: a pattern matches the paths that it means,
and the verdict on a path is that of the longest rule in force. -/
theorem robots_rules_applied (lower : Utf16Text → Utf16Text) :
    (∀ pattern path, matchesRobotsPattern pattern path = true ↔ RobotsMatch pattern path) ∧
    ∀ text path allowed, isAllowed (parseRobots lower text) path = allowed ↔
      Verdict (InForce (fun name => name = utf16 "*" ∨ (name ≠ [] ∧ name <+: lower userAgent))
        (robotsLines lower text)) path allowed := by
  refine ⟨matchesRobotsPattern_iff, fun text path allowed => ?_⟩
  have hverdict := verdict_isAllowed (parseRobots lower text) path
  simp only [mem_rules_iff, namesCrawler_iff] at hverdict
  constructor
  · rintro rfl
    exact hverdict
  · exact fun h => hverdict.unique h

/-- An empty name is a beginning of each name, but its rules are not for the crawler. -/
theorem empty_agent_ignored :
    ¬ ∀ text path, Verdict (InForce
      (fun name => name = utf16 "*" ∨ name <+: toLowerAscii userAgent)
      (robotsLines toLowerAscii text)) path (isAllowed (parseRobots toLowerAscii text) path) := by
  intro h
  have hlines : robotsLines toLowerAscii (utf16 "User-agent:\nDisallow: /\n") =
      [.agent [], .rule ⟨false, utf16 "/"⟩] := by decide +kernel
  have hallowed : isAllowed (parseRobots toLowerAscii (utf16 "User-agent:\nDisallow: /\n"))
      (utf16 "/") = true := by decide +kernel
  have hmatch : RobotsMatch (utf16 "/") (utf16 "/") :=
    (matchesRobotsPattern_iff _ _).1 (by decide +kernel)
  have hverdict := h (utf16 "User-agent:\nDisallow: /\n") (utf16 "/")
  rw [hlines, hallowed] at hverdict
  have hforce : InForce (fun name => name = utf16 "*" ∨ name <+: toLowerAscii userAgent)
      [.agent [], .rule ⟨false, utf16 "/"⟩] ⟨false, utf16 "/"⟩ :=
    ⟨by decide +kernel, [], [], [], [], rfl, .inr List.nil_prefix, List.Pairwise.nil⟩
  have hother : Verdict (InForce
      (fun name => name = utf16 "*" ∨ name <+: toLowerAscii userAgent)
      [.agent [], .rule ⟨false, utf16 "/"⟩]) (utf16 "/") false := by
    refine .inr ⟨⟨false, utf16 "/"⟩, hforce, hmatch, rfl, ?_⟩
    rintro other ⟨-, before, name, between, after, hlines, -⟩ -
    have hmem : RobotsLine.rule other ∈ [.agent [], .rule ⟨false, utf16 "/"⟩] := by
      rw [hlines]
      exact List.mem_append_right _ List.mem_cons_self
    simp only [List.mem_cons, reduceCtorEq, RobotsLine.rule.injEq, List.not_mem_nil, or_false,
      false_or] at hmem
    subst hmem
    exact ⟨Nat.le_refl _, fun _ hallow => hallow⟩
  exact absurd (hverdict.unique hother) (by decide)

end Munin.Agent
