import Mathlib.Order.Bounds.Basic
import Mathlib.Control.Lawful

/-!
# Bisection

A property of natural numbers that, once it holds, goes on holding is looked for between two bounds,
at the upper of which it holds. A test may have effects.

* **`Search.exists_bisect_eq`**: when every test between the bounds answers as the property does, the
  search returns the least number with the property.
-/

namespace Search

variable {m : Type → Type*} [Monad m]

/-- The least number between two bounds that passes a test. -/
def bisect (test : ℕ → m Bool) (low high : ℕ) : m ℕ :=
  if low < high then do
    let mid := (low + high) / 2
    if ← test mid then bisect test low mid else bisect test (mid + 1) high
  else pure low
termination_by high - low

variable {test : ℕ → m Bool} {p : ℕ → Prop} {low high mid : ℕ}

/-- Nothing is left between the bounds. -/
theorem bisect_self (test : ℕ → m Bool) (low : ℕ) : bisect test low low = pure low := by
  unfold bisect
  rw [if_neg (lt_irrefl low)]

section

variable [LawfulMonad m]

/-- The test passes halfway. -/
theorem bisect_of_pass (h : low < high) (htest : test ((low + high) / 2) = pure true) :
    bisect test low high = bisect test low ((low + high) / 2) := by
  conv_lhs => unfold bisect
  simp [h, htest]

/-- It fails there. -/
theorem bisect_of_fail (h : low < high) (htest : test ((low + high) / 2) = pure false) :
    bisect test low high = bisect test ((low + high) / 2 + 1) high := by
  conv_lhs => unfold bisect
  simp [h, htest]

end

/-- The numbers from a bound on with a property. -/
def From (p : ℕ → Prop) (low : ℕ) : Set ℕ := {t | low ≤ t ∧ p t}

/-- Numbers without the property may be left out. -/
theorem isLeast_of_le {t : ℕ} (hle : low ≤ mid) (hfail : ∀ s, low ≤ s → s < mid → ¬p s)
    (h : IsLeast (From p mid) t) : IsLeast (From p low) t := by
  refine ⟨⟨hle.trans h.1.1, h.1.2⟩, ?_⟩
  rintro s ⟨hs, hp⟩
  apply h.2
  refine ⟨?_, hp⟩
  by_contra hlt
  exact hfail s hs (not_le.mp hlt) hp

/-- The search finds the least number. -/
theorem exists_bisect_eq [LawfulMonad m] [DecidablePred p]
    (hp : ∀ s t, low ≤ s → s ≤ t → p s → p t) (hhigh : p high) (hle : low ≤ high)
    (htest : ∀ t, low ≤ t → t < high → test t = pure (decide (p t))) :
    ∃ t, bisect test low high = pure t ∧ IsLeast (From p low) t := by
  -- by induction on the distance of the bounds
  induction hd : high - low using Nat.strong_induction_on generalizing low high with
  | h d ih =>
    rcases hle.eq_or_lt with rfl | hlt
    · refine ⟨low, bisect_self test low, ⟨⟨le_rfl, hhigh⟩, ?_⟩⟩
      rintro s ⟨hs, -⟩
      exact hs
    have hmid : low ≤ (low + high) / 2 ∧ (low + high) / 2 < high := by omega
    have hanswer := htest _ hmid.1 hmid.2
    by_cases hpass : p ((low + high) / 2)
    · rw [decide_eq_true hpass] at hanswer
      rw [bisect_of_pass hlt hanswer]
      refine ih ((low + high) / 2 - low) (by omega) hp hpass hmid.1 ?_ rfl
      intro t ht ht'
      exact htest t ht (ht'.trans hmid.2)
    · rw [decide_eq_false hpass] at hanswer
      rw [bisect_of_fail hlt hanswer]
      obtain ⟨t, ht, hleast⟩ := ih (high - ((low + high) / 2 + 1)) (by omega)
        (fun s t hs => hp s t (hmid.1.trans (Nat.le_of_succ_le hs))) hhigh (by omega)
        (fun t ht => htest t (hmid.1.trans (Nat.le_of_succ_le ht))) rfl
      refine ⟨t, ht, isLeast_of_le (hmid.1.trans (Nat.le_succ _)) ?_ hleast⟩
      intro s hs hslt hps
      exact hpass (hp s _ hs (Nat.lt_succ_iff.mp hslt) hps)

end Search
