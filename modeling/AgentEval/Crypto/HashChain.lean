import Mathlib.Data.List.Forall2
import Mathlib.Data.List.Induction

/-!
# Hash chains

Entries that carry a number, the hash of the entry before them and a hash of their own. What the
hash covers is left open: a relation `R` says what two entries with one hash have in common.

* `Linked` — the entries are numbered in order and each names the hash before it.
* **`forall₂_of_chainHead_eq`**: two chains with one head are related entry by entry, when equal
  hashes relate entries and related entries carry the same number and the same link.
-/

namespace Crypto

variable {E H N : Type*} (number : E → N) (prev hash : E → H) (c : ℕ → N)

/-- The entries are numbered `c i`, `c (i + 1)`, …, and each names the hash before it, `g` first. -/
def Linked : ℕ → H → List E → Prop
  | _, _, [] => True
  | i, g, e :: es => number e = c i ∧ prev e = g ∧ Linked (i + 1) (hash e) es

/-- The hash a chain ends with. -/
def chainHead (g : H) : List E → H
  | [] => g
  | e :: es => chainHead (hash e) es

/-- The head after one more entry. -/
@[simp] theorem chainHead_append_singleton (g : H) (es : List E) (e : E) :
    chainHead hash g (es ++ [e]) = hash e := by
  induction es generalizing g with
  | nil => rfl
  | cons a es ih => exact ih _

/-- A chain with one more entry. -/
theorem linked_append_singleton {i : ℕ} {g : H} {es : List E} {e : E} :
    Linked number prev hash c i g (es ++ [e]) ↔
      Linked number prev hash c i g es ∧ number e = c (i + es.length) ∧
        prev e = chainHead hash g es := by
  induction es generalizing i g with
  | nil => simp [Linked, chainHead]
  | cons a es ih =>
    rw [List.cons_append, Linked, Linked, ih, chainHead, List.length_cons,
      show i + 1 + es.length = i + (es.length + 1) by omega]
    tauto

/-- **Two chains with one head are related entry by entry.** The induction runs backwards from the
head: the links give the heads before, and the numbers say that both chains start together. -/
theorem forall₂_of_chainHead_eq {R : E → E → Prop} {g : H} {xs ys : List E}
    (hR : ∀ e ∈ xs, ∀ f ∈ ys, hash e = hash f → R e f)
    (hnumber : ∀ e f, R e f → number e = number f) (hprev : ∀ e f, R e f → prev e = prev f)
    (hc : ∀ i, c i = c 0 → i = 0) (hxs : Linked number prev hash c 0 g xs)
    (hys : Linked number prev hash c 0 g ys) (hne : xs ≠ []) (hne' : ys ≠ [])
    (h : chainHead hash g xs = chainHead hash g ys) : List.Forall₂ R xs ys := by
  induction xs using List.reverseRecOn generalizing ys with
  | nil => exact absurd rfl hne
  | append_singleton xs e ih =>
    obtain ⟨ys, f, rfl⟩ : ∃ zs f, ys = zs ++ [f] := ⟨_, _, (List.dropLast_append_getLast hne').symm⟩
    rw [chainHead_append_singleton, chainHead_append_singleton] at h
    have hef : R e f := hR e (by simp) f (by simp) h
    obtain ⟨hxs, hne, hxe⟩ := (linked_append_singleton number prev hash c).mp hxs
    obtain ⟨hys, hnf, hyf⟩ := (linked_append_singleton number prev hash c).mp hys
    rw [Nat.zero_add] at hne hnf
    have hnum : c xs.length = c ys.length := by rw [← hne, ← hnf, hnumber e f hef]
    have hheads : chainHead hash g xs = chainHead hash g ys := by rw [← hxe, ← hyf, hprev e f hef]
    refine List.rel_append ?_ (List.Forall₂.cons hef .nil)
    by_cases hx : xs = []
    · subst hx
      have := hc _ hnum.symm
      rw [List.eq_nil_of_length_eq_zero this]
      exact .nil
    · have hy : ys ≠ [] := by
        rintro rfl
        exact hx (List.eq_nil_of_length_eq_zero (hc _ hnum))
      refine ih (fun a ha b hb => hR a ?_ b ?_) hxs hys hx hy hheads
      · exact List.mem_append_left _ ha
      · exact List.mem_append_left _ hb

end Crypto
