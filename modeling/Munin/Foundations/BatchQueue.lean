import Mathlib.Algebra.GroupWithZero.Nat
import Mathlib.Algebra.Order.BigOperators.Group.List
import Mathlib.Algebra.Order.Group.Nat
import Mathlib.Data.Int.Order.Basic
import Mathlib.Data.List.Sort
import Mathlib.Data.Nat.Find

/-!
# A queue served in batches

Items have keys, and a tick processes the first of those that are due, up to the size of a batch.
Processing an item serves it, or puts it back as something else. Items with one key may be taken in
any order, which need not be the same from tick to tick.

* **`Stuck`** — an item that, however often it is processed, stays due with a key up to some bound.
* **`served_of_stuck_lt`** — an item that can be served is, or another one, as long as the stuck
  items up to its key do not fill a batch.
* **`served_iff`** — and only then, whichever order items of one key are taken in.
-/

namespace Foundations

/-- What is due, the keys, the size of a batch, and what processing makes of an item: `none` if it
is served. -/
structure BatchQueue (α : Type*) where
  due : α → Bool
  key : α → ℤ
  size : ℕ
  process : α → Option α

/-- A way to sort items by their keys. -/
structure TakeOrder {α : Type*} (key : α → ℤ) where
  sort : List α → List α
  perm : ∀ l, (sort l).Perm l
  sorted : ∀ l, (sort l).Pairwise fun a b => key a ≤ key b

namespace BatchQueue

variable {α : Type*} [DecidableEq α] (Q : BatchQueue α)

/-- The items that a tick processes. -/
def batch (o : TakeOrder Q.key) (l : List α) : List α :=
  (o.sort (l.filter Q.due)).take Q.size

/-- The items after a tick that serves none of them. -/
def after (o : TakeOrder Q.key) (l : List α) : List α :=
  l.map fun a => if a ∈ Q.batch o l then (Q.process a).getD a else a

/-- Some item of the batch is served. -/
def Serves (o : TakeOrder Q.key) (l : List α) : Prop :=
  ∃ a ∈ Q.batch o l, Q.process a = none

/-- The items after some ticks. -/
def run : (ℕ → TakeOrder Q.key) → ℕ → List α → List α
  | _, 0, l => l
  | orders, n + 1, l => run (fun i => orders (i + 1)) n (Q.after (orders 0) l)

/-- An item after it was processed some times. -/
def iterate : ℕ → α → Option α
  | 0, a => some a
  | n + 1, a => (Q.process a).bind (iterate n)

/-- After so many times the item is served, or is not due any more, or has a key above the bound. -/
def Leaves (k : ℤ) (a : α) (n : ℕ) : Prop :=
  ¬ ∃ b, Q.iterate n a = some b ∧ Q.due b = true ∧ Q.key b ≤ k

/-- However often it is processed, the item stays due with a key up to the bound. -/
def Stuck (k : ℤ) (a : α) : Prop :=
  ∀ n, ¬ Q.Leaves k a n

variable {Q}

theorem run_succ (orders : ℕ → TakeOrder Q.key) (n : ℕ) (l : List α) :
    Q.run orders (n + 1) l = Q.run (fun i => orders (i + 1)) n (Q.after (orders 0) l) := rfl

variable {k : ℤ} {a b t : α} {o : TakeOrder Q.key} {l : List α}

omit [DecidableEq α] in
theorem leaves_succ (h : Q.process a = some b) (n : ℕ) : Q.Leaves k a (n + 1) ↔ Q.Leaves k b n := by
  unfold Leaves
  rw [iterate, h, Option.bind_some]

omit [DecidableEq α] in
theorem not_leaves_zero : ¬ Q.Leaves k a 0 ↔ Q.due a = true ∧ Q.key a ≤ k := by
  unfold Leaves
  rw [not_not]
  refine ⟨?_, fun h => ⟨a, rfl, h⟩⟩
  rintro ⟨b, hb, h⟩
  obtain rfl := Option.some.inj hb
  exact h

omit [DecidableEq α] in
/-- A stuck item is due, has a key up to the bound and is not served. -/
theorem Stuck.due (h : Q.Stuck k a) : Q.due a = true ∧ Q.key a ≤ k ∧ Q.process a ≠ none := by
  obtain ⟨hdue, hkey⟩ := not_leaves_zero.1 (h 0)
  refine ⟨hdue, hkey, fun hnone => h 1 ?_⟩
  unfold Leaves
  rw [iterate, hnone]
  rintro ⟨b, hb, -⟩
  cases hb

omit [DecidableEq α] in
theorem stuck_iff (hdue : Q.due a = true) (hkey : Q.key a ≤ k)
    (h : Q.process a = some b) : Q.Stuck k a ↔ Q.Stuck k b := by
  refine ⟨fun ha n => ?_, fun hb n => ?_⟩
  · exact fun hleaves => ha (n + 1) ((leaves_succ h n).2 hleaves)
  · cases n with
    | zero => exact not_leaves_zero.2 ⟨hdue, hkey⟩
    | succ n => exact fun hleaves => hb n ((leaves_succ h n).1 hleaves)

omit [DecidableEq α] in
/-- An item is stuck if it satisfies something that processing it keeps. -/
theorem Stuck.of_keeps {S : α → Prop}
    (hS : ∀ a, S a → Q.due a = true ∧ Q.key a ≤ k ∧ ∃ b, Q.process a = some b ∧ S b)
    (ha : S a) : Q.Stuck k a := by
  intro n
  induction n generalizing a with
  | zero =>
    obtain ⟨hdue, hkey, -⟩ := hS a ha
    exact not_leaves_zero.2 ⟨hdue, hkey⟩
  | succ n ih =>
    obtain ⟨-, -, b, hb, hSb⟩ := hS a ha
    rw [leaves_succ hb]
    exact ih hSb

open Classical in
/-- After how many times an item that is not stuck leaves. -/
noncomputable def rank (Q : BatchQueue α) (k : ℤ) (a : α) : ℕ :=
  if h : ∃ n, Q.Leaves k a n then Nat.find h else 0

omit [DecidableEq α] in
theorem rank_of_stuck (h : Q.Stuck k a) : Q.rank k a = 0 :=
  dif_neg fun ⟨n, hn⟩ => h n hn

omit [DecidableEq α] in
/-- Processing an item that is not stuck brings it nearer to leaving. -/
theorem rank_process (hdue : Q.due a = true) (hkey : Q.key a ≤ k)
    (h : Q.process a = some b) (hnot : ¬ Q.Stuck k a) : Q.rank k a = Q.rank k b + 1 := by
  classical
  have hnotb : ¬ Q.Stuck k b := fun hb => hnot ((stuck_iff hdue hkey h).2 hb)
  have ha : ∃ n, Q.Leaves k a n := by simpa [Stuck] using hnot
  have hb : ∃ n, Q.Leaves k b n := by simpa [Stuck] using hnotb
  have hsucc : ∃ n, Q.Leaves k a (n + 1) := hb.imp fun n hn => (leaves_succ h n).2 hn
  rw [rank, rank, dif_pos ha, dif_pos hb,
    Nat.find_comp_succ ha hsucc (not_leaves_zero.2 ⟨hdue, hkey⟩)]
  congr 1
  exact Nat.find_congr' fun {n} => leaves_succ h n

/-! ### Ticks that serve nothing -/

omit [DecidableEq α] in
theorem mem_batch (h : a ∈ Q.batch o l) : a ∈ l ∧ Q.due a = true :=
  List.mem_filter.1 ((o.perm _).mem_iff.1 (List.mem_of_mem_take h))

open Classical in
/-- **The stuck items stay** while a tick serves nothing and takes nothing above the bound. -/
theorem countP_stuck_after (hserves : ¬ Q.Serves o l) (hkey : ∀ a ∈ Q.batch o l, Q.key a ≤ k) :
    (Q.after o l).countP (Q.Stuck k ·) = l.countP (Q.Stuck k ·) := by
  rw [after, List.countP_map]
  refine List.countP_congr fun a ha => ?_
  simp only [Function.comp, decide_eq_true_eq]
  split
  · rename_i hbatch
    cases hp : Q.process a with
    | none => exact absurd ⟨a, hbatch, hp⟩ hserves
    | some b => exact (stuck_iff (mem_batch hbatch).2 (hkey a hbatch) hp).symm
  · exact Iff.rfl

/-- The total distance of the items from leaving. -/
noncomputable def total (Q : BatchQueue α) (k : ℤ) (l : List α) : ℕ :=
  (l.map (Q.rank k)).sum

/-- **A tick makes progress** if it serves nothing and takes nothing above the bound, but something
that is not stuck. -/
theorem total_after_lt (hserves : ¬ Q.Serves o l)
    (hkey : ∀ a ∈ Q.batch o l, Q.key a ≤ k) (ha : a ∈ Q.batch o l)
    (hnot : ¬ Q.Stuck k a) : Q.total k (Q.after o l) < Q.total k l := by
  have hstep : ∀ b ∈ Q.batch o l, ∃ c, Q.process b = some c := by
    intro b hb
    cases hp : Q.process b with
    | none => exact absurd ⟨b, hb, hp⟩ hserves
    | some c => exact ⟨c, rfl⟩
  rw [total, total, after, List.map_map]
  refine List.sum_lt_sum _ _ (fun b _ => ?_) ⟨a, (mem_batch ha).1, ?_⟩
  · dsimp only [Function.comp]
    split
    · rename_i hb
      obtain ⟨c, hc⟩ := hstep b hb
      rw [hc, Option.getD_some]
      by_cases hstuck : Q.Stuck k b
      · have hstuckc := (stuck_iff (mem_batch hb).2 (hkey b hb) hc).1 hstuck
        rw [rank_of_stuck hstuckc]
        exact Nat.zero_le _
      · rw [rank_process (mem_batch hb).2 (hkey b hb) hc hstuck]
        exact Nat.le_succ _
    · exact Nat.le_refl _
  · obtain ⟨c, hc⟩ := hstep a ha
    dsimp only [Function.comp]
    rw [if_pos ha, hc, Option.getD_some, rank_process (mem_batch ha).2 (hkey a ha) hc hnot]
    exact Nat.lt_succ_self _

omit [DecidableEq α] in
/-- An item that is due and not taken: the batch is full, and nothing in it has a greater key. -/
theorem full_of_not_mem (ht : t ∈ l) (hdue : Q.due t = true) (hnot : t ∉ Q.batch o l) :
    (Q.batch o l).length = Q.size ∧ ∀ a ∈ Q.batch o l, Q.key a ≤ Q.key t := by
  have hmem : t ∈ o.sort (l.filter Q.due) :=
    (o.perm _).mem_iff.2 (List.mem_filter.2 ⟨ht, hdue⟩)
  have hsplit := List.take_append_drop Q.size (o.sort (l.filter Q.due))
  have hdrop : t ∈ (o.sort (l.filter Q.due)).drop Q.size := by
    rw [← hsplit, List.mem_append] at hmem
    exact hmem.resolve_left hnot
  refine ⟨?_, fun a ha => ?_⟩
  · have hlength := List.length_pos_of_mem hdrop
    rw [List.length_drop] at hlength
    rw [batch, List.length_take]
    omega
  · have hsorted := o.sorted (l.filter Q.due)
    rw [← hsplit, List.pairwise_append] at hsorted
    exact hsorted.2.2 a ha t hdrop

omit [DecidableEq α] in
open Classical in
/-- A full batch has an item that is not stuck, if fewer are than fill it. -/
theorem exists_not_stuck
    (hfull : (Q.batch o l).length = Q.size) (hlt : l.countP (Q.Stuck k ·) < Q.size) :
    ∃ a ∈ Q.batch o l, ¬ Q.Stuck k a := by
  by_contra hall
  have hstuck : ∀ a ∈ Q.batch o l, Q.Stuck k a := fun a ha =>
    by_contra fun hnot => hall ⟨a, ha, hnot⟩
  have hcount : (Q.batch o l).countP (Q.Stuck k ·) = Q.size := by
    rw [← hfull, List.countP_eq_length]
    exact fun a ha => decide_eq_true (hstuck a ha)
  have hle : (Q.batch o l).countP (Q.Stuck k ·) ≤ l.countP (Q.Stuck k ·) := by
    refine ((List.take_sublist _ _).countP_le).trans ?_
    rw [(o.perm _).countP_eq]
    exact List.filter_sublist.countP_le
  omega

open Classical in
/-- **Something is served** after some ticks, if an item can be and the items that are stuck up to
its key do not fill a batch. -/
theorem served_of_stuck_lt (hdue : Q.due t = true) (hserve : Q.process t = none) (ht : t ∈ l)
    (hlt : l.countP (Q.Stuck (Q.key t) ·) < Q.size)
    (orders : ℕ → TakeOrder Q.key) : ∃ n, Q.Serves (orders n) (Q.run orders n l) := by
  induction htotal : Q.total (Q.key t) l using Nat.strong_induction_on generalizing l orders with
  | _ m ih =>
    by_cases hserves : Q.Serves (orders 0) l
    · exact ⟨0, hserves⟩
    · have hnot : t ∉ Q.batch (orders 0) l := fun hmem => hserves ⟨t, hmem, hserve⟩
      obtain ⟨hfull, hkey⟩ := full_of_not_mem ht hdue hnot
      obtain ⟨a, ha, hfree⟩ := exists_not_stuck hfull hlt
      have hless : Q.total (Q.key t) (Q.after (orders 0) l) < m :=
        htotal ▸ total_after_lt hserves hkey ha hfree
      have ht' : t ∈ Q.after (orders 0) l :=
        List.mem_map.2 ⟨t, ht, if_neg hnot⟩
      obtain ⟨n, hn⟩ := ih _ hless ht' (by rwa [countP_stuck_after hserves hkey])
        (fun i => orders (i + 1)) rfl
      exact ⟨n + 1, hn⟩

/-! ### An order that serves as late as it can -/

/-- By key, and of one key first what cannot be served. -/
def Before (Q : BatchQueue α) (a b : α) : Bool :=
  decide (Q.key a < Q.key b ∨
    Q.key a = Q.key b ∧ ((Q.process b).isNone = false → (Q.process a).isNone = false))

omit [DecidableEq α] in
theorem Before.trans (a b c : α) (hab : Q.Before a b = true) (hbc : Q.Before b c = true) :
    Q.Before a c = true := by
  simp only [Before, decide_eq_true_eq] at *
  rcases hab with hlt | ⟨heq, hlast⟩
  · rcases hbc with hlt' | ⟨heq', -⟩
    · exact Or.inl (hlt.trans hlt')
    · exact Or.inl (heq' ▸ hlt)
  · rcases hbc with hlt' | ⟨heq', hlast'⟩
    · exact Or.inl (heq ▸ hlt')
    · exact Or.inr ⟨heq.trans heq', fun h => hlast (hlast' h)⟩

omit [DecidableEq α] in
theorem Before.total (a b : α) : (Q.Before a b || Q.Before b a) = true := by
  simp only [Before, Bool.or_eq_true, decide_eq_true_eq]
  rcases lt_trichotomy (Q.key a) (Q.key b) with hlt | heq | hgt
  · exact Or.inl (Or.inl hlt)
  · by_cases ha : (Q.process a).isNone = false
    · exact Or.inl (Or.inr ⟨heq, fun _ => ha⟩)
    · exact Or.inr (Or.inr ⟨heq.symm, fun hfalse => absurd hfalse ha⟩)
  · exact Or.inr (Or.inl hgt)

/-- What can be served is taken last among the items of its key. -/
def lateOrder (Q : BatchQueue α) : TakeOrder Q.key where
  sort l := l.mergeSort Q.Before
  perm l := List.mergeSort_perm l _
  sorted l := (List.pairwise_mergeSort Before.trans Before.total l).imp fun h => by
    simp only [Before, decide_eq_true_eq] at h
    omega

omit [DecidableEq α] in
/-- What all comes before an element among the first of a sorted list is less than they are. -/
theorem countP_lt_of_mem_take {r : α → α → Prop} {p : α → Bool} {n : ℕ}
    (hsorted : l.Pairwise r) (hafter : ∀ a, r t a → p a = false) (ht : t ∈ l.take n)
    (hself : p t = false) : l.countP p < n := by
  obtain ⟨before, after, hsplit⟩ := List.append_of_mem ht
  have hl : l = before ++ t :: (after ++ l.drop n) := by
    conv_lhs => rw [← List.take_append_drop n l, hsplit]
    simp
  have hnone : (after ++ l.drop n).countP p = 0 := by
    rw [hl, List.pairwise_append, List.pairwise_cons] at hsorted
    refine List.countP_eq_zero.2 fun a ha => ?_
    rw [hafter a (hsorted.2.1.1 a ha)]
    exact Bool.false_ne_true
  have hlength : before.length < n := by
    have htake := List.length_take_le n l
    rw [hsplit, List.length_append, List.length_cons] at htake
    omega
  rw [hl, List.countP_append, List.countP_cons, hself, hnone]
  have hcount := List.countP_le_length (p := p) (l := before)
  simpa using hcount.trans_lt hlength

open Classical in
/-- Whatever can be served has a batch of stuck items up to its key. -/
def Blocked (Q : BatchQueue α) (l : List α) : Prop :=
  ∀ t ∈ l, Q.due t = true → Q.process t = none → Q.size ≤ l.countP (Q.Stuck (Q.key t) ·)

omit [DecidableEq α] in
theorem not_serves_of_blocked (h : Q.Blocked l) : ¬ Q.Serves Q.lateOrder l := by
  classical
  rintro ⟨t, hbatch, hserve⟩
  obtain ⟨ht, hdue⟩ := mem_batch hbatch
  have hsorted : (Q.lateOrder.sort (l.filter Q.due)).Pairwise (Q.Before · ·) :=
    List.pairwise_mergeSort Before.trans Before.total _
  have hlt := countP_lt_of_mem_take (p := (Q.Stuck (Q.key t) ·)) hsorted (fun a ha => ?_) hbatch
    (decide_eq_false fun hstuck => hstuck.due.2.2 hserve)
  · rw [(Q.lateOrder.perm _).countP_eq, List.countP_filter] at hlt
    have hsame : l.countP (fun a => decide (Q.Stuck (Q.key t) a) && Q.due a)
        = l.countP (Q.Stuck (Q.key t) ·) := by
      refine List.countP_congr fun a _ => ?_
      rw [Bool.and_eq_true, decide_eq_true_eq]
      exact ⟨fun h => h.1, fun h => ⟨h, h.due.1⟩⟩
    exact absurd (h t ht hdue hserve) (by omega)
  · refine decide_eq_false fun hstuck => ?_
    obtain ⟨-, hkey, hsome⟩ := hstuck.due
    have hserved : (Q.process a).isNone = false := by
      rwa [Option.isNone_eq_false_iff, Option.isSome_iff_ne_none]
    rw [Before, decide_eq_true_eq, hserve] at ha
    rcases ha with hlt | ⟨-, hnone⟩
    · omega
    · exact absurd (hnone hserved) (by simp)

/-- **Blocked items stay blocked**, if what is put back cannot be served at once. -/
theorem Blocked.after (hkeep : ∀ a b, Q.process a = some b → Q.process b ≠ none)
    (h : Q.Blocked l) : Q.Blocked (Q.after Q.lateOrder l) := by
  classical
  have hserves := not_serves_of_blocked h
  intro t ht hdue hserve
  obtain ⟨a, ha, rfl⟩ := List.mem_map.1 ht
  by_cases hbatch : a ∈ Q.batch Q.lateOrder l
  · rw [if_pos hbatch] at hserve
    cases hp : Q.process a with
    | none => exact absurd ⟨a, hbatch, hp⟩ hserves
    | some b =>
      rw [hp, Option.getD_some] at hserve
      exact absurd hserve (hkeep a b hp)
  · rw [if_neg hbatch] at hdue hserve ⊢
    rw [countP_stuck_after hserves (full_of_not_mem ha hdue hbatch).2]
    exact h a ha hdue hserve

open Classical in
/-- **Something is served whichever order items of one key are taken in, exactly if** some item
that is due can be, and the items stuck up to its key do not fill a batch. -/
theorem served_iff (hkeep : ∀ a b, Q.process a = some b → Q.process b ≠ none) (l : List α) :
    (∀ orders : ℕ → TakeOrder Q.key, ∃ n, Q.Serves (orders n) (Q.run orders n l)) ↔
      ∃ t ∈ l, Q.due t = true ∧ Q.process t = none ∧ l.countP (Q.Stuck (Q.key t) ·) < Q.size := by
  refine ⟨fun h => ?_, fun ⟨t, ht, hdue, hserve, hlt⟩ orders =>
    served_of_stuck_lt hdue hserve ht hlt orders⟩
  by_contra hnone
  have hblocked : Q.Blocked l := fun t ht hdue hserve =>
    not_lt.1 fun hlt => hnone ⟨t, ht, hdue, hserve, hlt⟩
  have hrun : ∀ n l, Q.Blocked l → ¬ Q.Serves Q.lateOrder (Q.run (fun _ => Q.lateOrder) n l) := by
    intro n
    induction n with
    | zero => exact fun l hl => not_serves_of_blocked hl
    | succ n ih => exact fun l hl => ih _ (hl.after hkeep)
  obtain ⟨n, hn⟩ := h fun _ => Q.lateOrder
  exact hrun n l hblocked hn

end BatchQueue

end Foundations
