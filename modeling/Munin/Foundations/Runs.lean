import Mathlib.Data.List.Infix
import Mathlib.Data.List.SplitBy
import Mathlib.Data.List.TakeWhile

/-!
# Runs

A run of a list is a longest part of equal elements. A scan that removes two equal special elements
at a time leaves one element of each odd run of them, and nothing of each even one, so that elements
which were apart can meet.

* **`dropPairs`** — the scan; `dropPairs_eq` is what it leaves, run by run.
* **`Between`** — what is left between an odd run and a later one; `infix_dropPairs_iff` says that
  it, with an element of each of the two, is what stands in the list that the scan leaves.
-/

namespace Foundations

variable {α : Type*} (special : α → Bool)

/-- What is left of a run. -/
def reduceRun (run : List α) : List α :=
  if run.all special then run.take (run.length % 2) else run

/-- A run of an odd number of elements. -/
def OddRun (a : α) (run : List α) : Prop := ∃ n, run = List.replicate (2 * n + 1) a

/-- Between an odd run of `a` and a later one of `b`, runs stand that leave `x`. -/
def Between (a b : α) (x : List α) (rs : List (List α)) : Prop :=
  ∃ before u mid v after, rs = before ++ u :: mid ++ v :: after ∧ OddRun a u ∧ OddRun b v ∧
    mid.flatMap (reduceRun special) = x

variable {special} {a b : α} {l rest x : List α} {rs : List (List α)}

/-! ### Runs that are reduced -/

theorem reduceRun_replicate (n : ℕ) :
    reduceRun special (List.replicate n a) =
      List.replicate (if special a then n % 2 else n) a := by
  rw [reduceRun]
  cases n with
  | zero => simp
  | succ n =>
    by_cases ha : special a = true
    · have hle : (n + 1) % 2 ≤ n + 1 := Nat.mod_le _ _
      simp [ha, Nat.min_eq_left hle]
    · simp [ha]

theorem reduceRun_oddRun (ha : special a = true) {u : List α} (h : OddRun a u) :
    reduceRun special u = [a] := by
  obtain ⟨n, rfl⟩ := h
  rw [reduceRun_replicate, if_pos ha, Nat.mul_add_mod]
  rfl

/-- A run that leaves a special element is an odd run of it. -/
theorem oddRun_of_mem_reduceRun (ha : special a = true) {u : List α}
    (hu : ∃ b n, u = List.replicate n b) (h : a ∈ reduceRun special u) : OddRun a u := by
  obtain ⟨b, n, rfl⟩ := hu
  rw [reduceRun_replicate] at h
  obtain rfl := List.eq_of_mem_replicate h
  rw [if_pos ha] at h
  have hodd : n % 2 ≠ 0 := fun h0 => by simp [h0] at h
  refine ⟨n / 2, congrArg (List.replicate · a) ?_⟩
  omega

/-- The run that a special element comes from. -/
theorem exists_oddRun (ha : special a = true) (hrs : ∀ r ∈ rs, ∃ b n, r = List.replicate n b)
    {before after : List α} (h : rs.flatMap (reduceRun special) = before ++ a :: after) :
    ∃ rs₁ u rs₂, rs = rs₁ ++ u :: rs₂ ∧ OddRun a u ∧ rs₁.flatMap (reduceRun special) = before ∧
      rs₂.flatMap (reduceRun special) = after := by
  induction rs generalizing before with
  | nil => simp at h
  | cons r rs ih =>
    have hrs' : ∀ r ∈ rs, ∃ b n, r = List.replicate n b := fun r hr =>
      hrs r (List.mem_cons_of_mem _ hr)
    rw [List.flatMap_cons] at h
    by_cases hmem : a ∈ reduceRun special r ∧ before = []
    · -- The first run is the one.
      obtain ⟨hmem, rfl⟩ := hmem
      have hodd := oddRun_of_mem_reduceRun ha (hrs r List.mem_cons_self) hmem
      rw [reduceRun_oddRun ha hodd] at h
      exact ⟨[], r, rs, rfl, hodd, rfl, (List.cons.inj h).2⟩
    · obtain ⟨mid, rfl, hmid⟩ : ∃ mid, before = reduceRun special r ++ mid ∧
          rs.flatMap (reduceRun special) = mid ++ a :: after := by
        rcases List.append_eq_append_iff.1 h with ⟨mid, hbefore, hmid⟩ | ⟨mid, hr, hafter⟩
        · exact ⟨mid, hbefore, hmid⟩
        · cases mid with
          | nil => exact ⟨[], by rw [hr, List.append_nil, List.append_nil], hafter.symm⟩
          | cons c mid =>
            obtain ⟨rfl, -⟩ := List.cons.inj hafter
            have hin : a ∈ reduceRun special r := hr ▸ by simp
            have hone := reduceRun_oddRun ha
              (oddRun_of_mem_reduceRun ha (hrs r List.mem_cons_self) hin)
            rw [hone] at hr
            refine absurd ⟨hin, ?_⟩ hmem
            cases before with
            | nil => rfl
            | cons d before => simp at hr
      obtain ⟨rs₁, u, rs₂, rfl, hu, hbefore, hafter⟩ := ih hrs' hmid
      exact ⟨r :: rs₁, u, rs₂, rfl, hu, by rw [List.flatMap_cons, hbefore], hafter⟩

/-- Two special elements, and what is between them. -/
theorem infix_flatMap_iff (ha : special a = true) (hb : special b = true)
    (hrs : ∀ r ∈ rs, ∃ b n, r = List.replicate n b) :
    a :: x ++ [b] <:+: rs.flatMap (reduceRun special) ↔ Between special a b x rs := by
  constructor
  · rintro ⟨before, after, h⟩
    have hsplit : rs.flatMap (reduceRun special) = before ++ a :: (x ++ b :: after) := by
      rw [← h]
      simp
    obtain ⟨rs₁, u, rs₂, rfl, hu, -, hrest⟩ := exists_oddRun ha hrs hsplit
    obtain ⟨mid, v, rs₃, rfl, hv, hmid, -⟩ := exists_oddRun hb
      (fun r hr => hrs r (List.mem_append_right _ (List.mem_cons_of_mem _ hr))) hrest
    exact ⟨rs₁, u, mid, v, rs₃, by simp, hu, hv, hmid⟩
  · rintro ⟨before, u, mid, v, after, rfl, hu, hv, rfl⟩
    refine ⟨before.flatMap (reduceRun special), after.flatMap (reduceRun special), ?_⟩
    simp [reduceRun_oddRun ha hu, reduceRun_oddRun hb hv]

/-! ### The scan, run by run -/

variable [DecidableEq α]

/-- The runs of a list. -/
def runs (l : List α) : List (List α) := l.splitBy (· == ·)

/-- The list without the pairs of equal special elements that a scan from the left finds. -/
def dropPairs (special : α → Bool) : List α → List α
  | a :: b :: rest =>
    if special a ∧ a = b then dropPairs special rest else a :: dropPairs special (b :: rest)
  | l => l

/-- Every list is made of runs. -/
theorem run_induction {P : List α → Prop} (nil : P [])
    (run : ∀ a n rest, rest.head? ≠ some a → P rest → P (List.replicate (n + 1) a ++ rest))
    (l : List α) : P l := by
  induction hlength : l.length using Nat.strong_induction_on generalizing l with
  | _ m ih =>
    cases l with
    | nil => exact nil
    | cons a t =>
      have hsplit : a :: t = List.replicate ((t.takeWhile (· = a)).length + 1) a ++
          t.dropWhile (· = a) := by
        have hall : t.takeWhile (· = a) = List.replicate (t.takeWhile (· = a)).length a :=
          List.eq_replicate_of_mem fun c hc => by
            simpa using List.mem_takeWhile_imp hc
        rw [List.replicate_succ, ← hall, List.cons_append, List.takeWhile_append_dropWhile]
      rw [hsplit]
      refine run a _ _ (fun hhead => ?_) (ih _ ?_ _ rfl)
      · have hnot := List.head?_dropWhile_not (fun c => decide (c = a)) t
        rw [hhead] at hnot
        simp at hnot
      · rw [← hlength]
        exact Nat.lt_succ_of_le (List.length_dropWhile_le _ _)

theorem runs_run (n : ℕ) (h : rest.head? ≠ some a) :
    runs (List.replicate (n + 1) a ++ rest) = List.replicate (n + 1) a :: runs rest := by
  have hone : (List.replicate (n + 1) a).splitBy (· == ·) = [List.replicate (n + 1) a] :=
    List.splitBy_of_isChain (List.cons_ne_nil _ _)
      (List.isChain_replicate_of_rel _ (beq_self_eq_true a))
  have happart : ∀ x ∈ (List.replicate (n + 1) a).getLast?, ∀ y ∈ rest.head?,
      (x == y) = false := by
    intro x hx y hy
    obtain rfl := List.eq_of_mem_replicate (List.mem_of_mem_getLast? hx)
    exact beq_false_of_ne fun hxy => h (hxy ▸ hy)
  rw [runs, List.splitBy_append happart, hone]
  rfl

theorem exists_replicate_of_mem_runs {r : List α} (h : r ∈ runs l) :
    ∃ a n, r = List.replicate n a := by
  induction l using run_induction with
  | nil => cases h
  | run a n rest hrest ih =>
    rw [runs_run n hrest] at h
    rcases List.mem_cons.1 h with rfl | h
    · exact ⟨a, n + 1, rfl⟩
    · exact ih h

theorem dropPairs_cons_of_ne (h : special a = false ∨ l.head? ≠ some a) :
    dropPairs special (a :: l) = a :: dropPairs special l := by
  cases l with
  | nil => rfl
  | cons b l =>
    rw [dropPairs, if_neg]
    rintro ⟨hspecial, rfl⟩
    rcases h with h | h
    · exact absurd (hspecial.symm.trans h) (by decide)
    · exact h rfl

/-- A run leaves one element if it is odd, and nothing if it is even. -/
theorem dropPairs_run (n : ℕ) (h : rest.head? ≠ some a) :
    dropPairs special (List.replicate n a ++ rest) =
      reduceRun special (List.replicate n a) ++ dropPairs special rest := by
  rw [reduceRun_replicate]
  by_cases ha : special a = true
  · rw [if_pos ha]
    induction n using Nat.twoStepInduction with
    | zero => rfl
    | one => exact dropPairs_cons_of_ne (.inr h)
    | more n ih _ =>
      rw [Nat.add_mod_right, ← ih, List.replicate_succ, List.replicate_succ, List.cons_append,
        List.cons_append, dropPairs, if_pos ⟨ha, rfl⟩]
  · rw [if_neg ha]
    induction n with
    | zero => rfl
    | succ n ih =>
      rw [List.replicate_succ, List.cons_append,
        dropPairs_cons_of_ne (.inl (Bool.eq_false_iff.2 ha)), ih, List.cons_append]

/-- **What the scan leaves**, run by run. -/
theorem dropPairs_eq (special : α → Bool) (l : List α) :
    dropPairs special l = (runs l).flatMap (reduceRun special) := by
  induction l using run_induction with
  | nil => rfl
  | run a n rest h ih => rw [dropPairs_run _ h, runs_run n h, List.flatMap_cons, ih]

/-- **What stands in the list that the scan leaves.** -/
theorem infix_dropPairs_iff (ha : special a = true) (hb : special b = true) :
    a :: x ++ [b] <:+: dropPairs special l ↔ Between special a b x (runs l) := by
  rw [dropPairs_eq]
  exact infix_flatMap_iff ha hb fun _ => exists_replicate_of_mem_runs

end Foundations
