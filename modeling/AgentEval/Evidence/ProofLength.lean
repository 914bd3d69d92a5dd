import AgentEval.Evidence.ProofCorrect
import AgentEval.Merkle.PathLength

/-!
# How long a proof the verifiers accept

The sizes of a proof object are Numbers up to `2 ^ 53 - 1`, and the shifts of the verifiers see 32
bits of them. From `2 ^ 32 + 1` on a verifier therefore walks a smaller tree than the one the proof
speaks of, and the paths it accepts are too short, but for a few sizes.

* `exists_moveUp_snd` — a pass shifts the last position at least once, whatever the Numbers are.
  `ne_zero_of_toInt32_neg`: a last position with bit 31 set never comes down to zero;
  `length_le_size`, `exists_path`: any other is reached by a path no longer than its bits.
* `consistencyLoop_low` — with equal high bits, the loop is that of the low bits.
* `length_of_inclusionLoop_iff`, `length_of_verifyConsistency_iff` — for which sizes every accepted
  path is as long as RFC 6962 says.
-/

namespace AgentEval.Evidence

open Js Sha256 Merkle

/-! ## The last position, whatever the position -/

/-- The shift of a shifted position. -/
theorem toInt32_shr_one (x : Number) : (x.shr 1).toInt32 = x.toInt32 / 2 := by
  obtain ⟨hlo, hhi⟩ := x.toInt32_bounds
  rw [Number.shr_one_eq, Number.toInt32_ofInt (by omega) (by omega)]

/-- The first inner loop and the shift after it shift the last position at least once. -/
theorem exists_shiftWhileEven_snd (fn sn : Number) :
    ∃ k, ((shiftWhileEven fn sn).2).shr 1 = .ofInt (sn.toInt32 / 2 ^ (k + 1)) := by
  induction fn, sn using shiftWhileEven.induct with
  | case1 fn sn h ih =>
    obtain ⟨k, hk⟩ := ih
    refine ⟨k + 1, ?_⟩
    rw [shiftWhileEven, dif_pos h, hk, toInt32_shr_one, Int.ediv_ediv_of_nonneg (by norm_num),
      ← pow_succ']
  | case2 fn sn h =>
    refine ⟨0, ?_⟩
    rw [shiftWhileEven, dif_neg h, Number.shr_one_eq, zero_add, pow_one]

/-- **A pass of the loop shifts the last position at least once.** -/
theorem exists_moveUp_snd (fn sn : Number) :
    ∃ k, (moveUp fn sn).2 = .ofInt (sn.toInt32 / 2 ^ (k + 1)) := by
  rw [moveUp]
  by_cases hright : isRightChild fn sn = true
  · simp only [hright, if_true]
    exact exists_shiftWhileEven_snd fn sn
  · simp only [hright]
    refine ⟨0, ?_⟩
    rw [zero_add, pow_one]
    exact Number.shr_one_eq sn

/-- A zero has no bit 31. -/
theorem toInt32_of_eq_zero {x : Number} (h : x.eq (.ofNat 0) = true) : x.toInt32 = 0 := by
  rcases Number.eq_ofNat_cases (by norm_num) h with rfl | ⟨rfl, -⟩
  · exact Number.toInt32_ofNat (by norm_num)
  · rfl

/-- A path that is read has a position above the top. -/
theorem eq_false_of_consistencyLoop_cons {fn sn sn' : Number} {fr sr fr' sr' : Digest}
    {x : JsString} {path : List JsString}
    (h : consistencyLoop fn sn fr sr (x :: path) = .ok (sn', fr', sr')) :
    sn.eq (.ofNat 0) = false ∧ ∃ fr₁ sr₁, consistencyLoop (moveUp fn sn).1 (moveUp fn sn).2 fr₁ sr₁
      path = .ok (sn', fr', sr') := by
  rw [consistencyLoop] at h
  by_cases h₀ : sn.eq (.ofNat 0) = true
  · rw [if_pos h₀] at h
    cases h
  · rw [if_neg h₀] at h
    refine ⟨by simpa using h₀, ?_⟩
    cases hnode : hexToBuf x with
    | error e =>
      rw [hnode] at h
      cases h
    | ok node =>
      rw [hnode] at h
      simp only at h
      split_ifs at h
      · exact ⟨_, _, h⟩
      · exact ⟨_, _, h⟩

/-- **A last position with bit 31 set stays negative**: the loop does not end at the top. -/
theorem ne_zero_of_toInt32_neg {fn sn sn' : Number} {fr sr fr' sr' : Digest} {path : List JsString}
    (hneg : sn.toInt32 < 0) (h : consistencyLoop fn sn fr sr path = .ok (sn', fr', sr')) :
    sn'.eq (.ofNat 0) = false := by
  induction path generalizing fn sn fr sr with
  | nil =>
    simp only [consistencyLoop, Except.ok.injEq, Prod.mk.injEq] at h
    obtain ⟨rfl, -, -⟩ := h
    by_contra h₀
    rw [toInt32_of_eq_zero (by simpa using h₀)] at hneg
    exact lt_irrefl _ hneg
  | cons x path ih =>
    obtain ⟨-, fr₁, sr₁, hrest⟩ := eq_false_of_consistencyLoop_cons h
    obtain ⟨k, hk⟩ := exists_moveUp_snd fn sn
    refine ih ?_ hrest
    obtain ⟨hlo, hhi⟩ := sn.toInt32_bounds
    have hpow : (0 : ℤ) < 2 ^ (k + 1) := by positivity
    have hdiv : sn.toInt32 / 2 ^ (k + 1) < 0 := Int.ediv_neg_of_neg_of_pos hneg hpow
    have hge : sn.toInt32 ≤ sn.toInt32 / 2 ^ (k + 1) := by
      rw [Int.le_ediv_iff_mul_le hpow]
      nlinarith
    rw [hk, Number.toInt32_ofInt (by omega) (by omega)]
    exact hdiv

section low

variable {fn : Number} {s : ℕ}

/-- A pass from a last position below `2 ^ 31`. -/
theorem exists_moveUp_snd_ofNat (fn : Number) (hs : s < 2 ^ 31) :
    ∃ k, (moveUp fn (.ofNat s)).2 = .ofNat (s / 2 ^ (k + 1)) := by
  obtain ⟨k, hk⟩ := exists_moveUp_snd fn (.ofNat s)
  refine ⟨k, ?_⟩
  rw [hk, Number.toInt32_ofNat hs, Number.ofNat_eq_ofInt]
  congr 1

/-- What a pass leaves of a positive last position is at most half of it. -/
theorem div_pow_succ_le_half (s k : ℕ) : s / 2 ^ (k + 1) ≤ s / 2 := by
  rw [pow_succ', ← Nat.div_div_eq_div_mul]
  exact Nat.div_le_self _ _

/-- A path that is read is no longer than the last position has bits. -/
theorem length_le_size {sn' : Number} {fr sr fr' sr' : Digest} {path : List JsString}
    (hs : s < 2 ^ 31) (h : consistencyLoop fn (.ofNat s) fr sr path = .ok (sn', fr', sr')) :
    path.length ≤ s.size := by
  induction path generalizing fn s fr sr with
  | nil => exact Nat.zero_le _
  | cons x path ih =>
    obtain ⟨hne, fr₁, sr₁, hrest⟩ := eq_false_of_consistencyLoop_cons h
    have hpos : 0 < s := by
      rw [Number.eq_ofNat (by omega) (by norm_num)] at hne
      exact Nat.pos_of_ne_zero (by simpa using hne)
    obtain ⟨k, hk⟩ := exists_moveUp_snd_ofNat fn hs
    have hhalf := div_pow_succ_le_half s k
    rw [hk] at hrest
    have hlen := (ih (by omega) hrest).trans (Nat.size_le_size hhalf)
    rw [List.length_cons, size_eq_size_half hpos]
    omega

/-- A path that leads on from where a pass goes is continued below by one node. -/
theorem exists_cons {fn sn : Number} {fr sr : Digest} {Q : List JsString → Prop}
    (hne : sn.eq (.ofNat 0) = false)
    (h : ∀ fr₁ sr₁, ∃ path fr' sr', consistencyLoop (moveUp fn sn).1 (moveUp fn sn).2 fr₁ sr₁ path =
      .ok (.ofNat 0, fr', sr') ∧ Q path) :
    ∃ x path fr' sr', consistencyLoop fn sn fr sr (x :: path) = .ok (.ofNat 0, fr', sr') ∧
      Q path := by
  by_cases hright : isRightChild fn sn = true
  · obtain ⟨path, fr', sr', hpath, hQ⟩ := h (hashNode (sha256 []) fr) (hashNode (sha256 []) sr)
    refine ⟨toHex (sha256 []).bytes, path, fr', sr', ?_, hQ⟩
    rw [consistencyLoop, hne, hexToBuf_toHex]
    simp only [hright, if_true, Bool.false_eq_true, if_false]
    exact hpath
  · obtain ⟨path, fr', sr', hpath, hQ⟩ := h fr (hashNode sr (sha256 []))
    refine ⟨toHex (sha256 []).bytes, path, fr', sr', ?_, hQ⟩
    rw [consistencyLoop, hne, hexToBuf_toHex]
    simp only [hright, Bool.false_eq_true, if_false]
    exact hpath

/-- **From every position a last position below `2 ^ 31` is brought down to zero** by some path. -/
theorem exists_path (fn : Number) (fr sr : Digest) (hs : s < 2 ^ 31) :
    ∃ path fr' sr', consistencyLoop fn (.ofNat s) fr sr path = .ok (.ofNat 0, fr', sr') ∧
      path.length ≤ s.size := by
  induction s using Nat.strong_induction_on generalizing fn fr sr with
  | _ s ih =>
    rcases Nat.eq_zero_or_pos s with rfl | hpos
    · exact ⟨[], fr, sr, rfl, Nat.zero_le _⟩
    · obtain ⟨k, hk⟩ := exists_moveUp_snd_ofNat fn hs
      have hhalf := div_pow_succ_le_half s k
      have hne : (Number.ofNat s).eq (.ofNat 0) = false := by
        rw [Number.eq_ofNat (by omega) (by norm_num)]
        simpa using hpos.ne'
      have hstep : ∀ fr₁ sr₁ : Digest, ∃ path fr' sr', consistencyLoop (moveUp fn (.ofNat s)).1
          (moveUp fn (.ofNat s)).2 fr₁ sr₁ path = .ok (.ofNat 0, fr', sr') ∧ True := by
        intro fr₁ sr₁
        obtain ⟨path, fr', sr', hpath, -⟩ := ih _ (by omega) (moveUp fn (.ofNat s)).1 fr₁ sr₁
          (show s / 2 ^ (k + 1) < 2 ^ 31 by omega)
        rw [hk]
        exact ⟨path, fr', sr', hpath, trivial⟩
      obtain ⟨x, path, fr', sr', hpath, -⟩ := exists_cons hne hstep
      exact ⟨x :: path, fr', sr', hpath, length_le_size hs hpath⟩

/-! ## Positions that are never a right child -/

/-- A pass from a position that is not positive goes left. -/
theorem moveUp_of_nonpos {i : ℤ} (hi : i ≤ 0) (hlo : -2 ^ 31 ≤ i) (hs : s < 2 ^ 31) (hpos : 0 < s) :
    isRightChild (.ofInt i) (.ofNat s) = false ∧
      moveUp (.ofInt i) (.ofNat s) = (.ofInt (i / 2), .ofNat (s / 2)) := by
  have hne : (Number.ofInt i).eq (.ofNat s) = false := by
    rw [Number.ofInt_eq (by rw [abs_lt]; omega), Number.ofNat_eq (show s < 2 ^ 53 by omega)]
    simp only [Number.eq, Number.place, decide_eq_false_iff_not, WithBot.coe_inj, WithTop.coe_inj]
    intro h
    have : i = s := by exact_mod_cast h
    omega
  have hleft : isRightChild (.ofInt i) (.ofNat s) = false := by
    rw [isRightChild, Number.mod_two_ofInt_of_nonpos hi hlo, hne]
    rfl
  refine ⟨hleft, ?_⟩
  simp only [moveUp, hleft, Bool.false_eq_true, if_false, Number.shr_one_ofNat hs,
    Number.shr_one_eq, Number.toInt32_ofInt hlo (show i < 2 ^ 31 by omega)]

/-- **From a position that is not positive** every step goes left: the earlier root is not touched,
and the path has one node for each bit of the last position. -/
theorem length_eq_size_of_nonpos {i : ℤ} {sn' : Number} {fr sr fr' sr' : Digest}
    {path : List JsString} (hi : i ≤ 0) (hlo : -2 ^ 31 ≤ i) (hs : s < 2 ^ 31)
    (h : consistencyLoop (.ofInt i) (.ofNat s) fr sr path = .ok (sn', fr', sr'))
    (htop : sn'.eq (.ofNat 0) = true) : path.length = s.size ∧ fr' = fr := by
  induction path generalizing i s sr with
  | nil =>
    simp only [consistencyLoop, Except.ok.injEq, Prod.mk.injEq] at h
    obtain ⟨rfl, rfl, -⟩ := h
    rw [Number.eq_ofNat (by omega) (by norm_num), decide_eq_true_eq] at htop
    rw [htop]
    exact ⟨rfl, rfl⟩
  | cons x path ih =>
    obtain ⟨hne, -⟩ := eq_false_of_consistencyLoop_cons h
    have hpos : 0 < s := by
      rw [Number.eq_ofNat (by omega) (by norm_num)] at hne
      exact Nat.pos_of_ne_zero (by simpa using hne)
    obtain ⟨hleft, hmove⟩ := moveUp_of_nonpos hi hlo hs hpos
    rw [consistencyLoop, hne, hmove, hleft] at h
    simp only [Bool.false_eq_true, if_false] at h
    cases hnode : hexToBuf x with
    | error e =>
      rw [hnode] at h
      cases h
    | ok node =>
      rw [hnode] at h
      obtain ⟨hlen, hfr⟩ := ih (by omega) (by omega) (by omega) h
      rw [List.length_cons, hlen, size_eq_size_half hpos]
      exact ⟨rfl, hfr⟩

end low

/-! ## The first pass from a wide last position -/

section wide

variable {f s : ℕ}

/-- A pass that is not at the last node shifts both positions once. -/
theorem moveUp_of_ne (hf : f < 2 ^ 53) (hs : s < 2 ^ 53) (hne : f ≠ s) :
    moveUp (.ofNat f) (.ofNat s) = ((Number.ofNat f).shr 1, (Number.ofNat s).shr 1) := by
  by_cases hodd : f % 2 = 1
  · have hright : isRightChild (.ofNat f) (.ofNat s) = true := by
      rw [isRightChild_ofNat hf hs]
      simp [hodd]
    simp only [moveUp, hright, if_true, shiftWhileEven_of_odd hf hodd]
  · have hleft : isRightChild (.ofNat f) (.ofNat s) = false := by
      rw [isRightChild_ofNat hf hs]
      simp [hodd, hne]
    simp only [moveUp, hleft, Bool.false_eq_true, if_false]

/-- A shift where bit 31 is clear sees the low bits. -/
theorem shr_one_of_low (hs : s < 2 ^ 53) (hlow : s % 2 ^ 32 < 2 ^ 31) :
    (Number.ofNat s).shr 1 = .ofNat (s % 2 ^ 32 / 2) := by
  rw [Number.shr_one_eq, Number.toInt32_ofNat_of_lt hs hlow, Number.ofNat_eq_ofInt]
  congr 1

/-- The last node of a level whose position ends in 32 zeros. -/
theorem moveUp_self_of_low_eq_zero (hs : s < 2 ^ 53) (hpos : 0 < s) (hlow : s % 2 ^ 32 = 0) :
    moveUp (.ofNat s) (.ofNat s) = (.ofNat 0, .ofNat 0) := by
  have hright : isRightChild (.ofNat s) (.ofNat s) = true := by
    rw [isRightChild_ofNat hs hs]
    simp
  have hshr : (Number.ofNat s).shr 1 = .ofNat 0 := by
    rw [shr_one_of_low hs (by omega), hlow]
  have hzero : shiftWhileEven (.ofNat 0) (.ofNat 0) = (.ofNat 0, .ofNat 0) := by
    rw [shiftWhileEven, dif_neg (by simp)]
  have hshift : shiftWhileEven (.ofNat s) (.ofNat s) = (.ofNat 0, .ofNat 0) := by
    rw [shiftWhileEven, mod_two_eq hs 0 (by norm_num), Number.eq_ofNat hs (by norm_num),
      dif_pos (by simp; omega), hshr, hzero]
  simp only [moveUp, hright, if_true, hshift, Number.shr_one_ofNat (show 0 < 2 ^ 31 by norm_num),
    Nat.zero_div]

/-- **With equal high bits a pass is that of the low bits.** -/
theorem moveUp_low (hle : f ≤ s) (hs : s < 2 ^ 53) (hhigh : f / 2 ^ 32 = s / 2 ^ 32)
    (hlow : s % 2 ^ 32 < 2 ^ 31) (hpos : 0 < s % 2 ^ 32) :
    isRightChild (.ofNat f) (.ofNat s) = isRightChild (.ofNat (f % 2 ^ 32)) (.ofNat (s % 2 ^ 32)) ∧
      moveUp (.ofNat f) (.ofNat s) = moveUp (.ofNat (f % 2 ^ 32)) (.ofNat (s % 2 ^ 32)) := by
  have hf : f < 2 ^ 53 := by omega
  have hflow : f % 2 ^ 32 < 2 ^ 31 := by omega
  constructor
  · rw [isRightChild_ofNat hf hs, isRightChild_ofNat (by omega) (by omega)]
    exact decide_eq_decide.mpr (by omega)
  · by_cases hne : f = s
    · subst hne
      have hright : ∀ {n : ℕ}, n < 2 ^ 53 → isRightChild (.ofNat n) (.ofNat n) = true := by
        intro n hn
        rw [isRightChild_ofNat hn hn]
        simp
      have hshift : shiftWhileEven (.ofNat f) (.ofNat f) =
            shiftWhileEven (.ofNat (f % 2 ^ 32)) (.ofNat (f % 2 ^ 32)) ∨
          shiftWhileEven (.ofNat f) (.ofNat f) = (.ofNat f, .ofNat f) ∧
            shiftWhileEven (.ofNat (f % 2 ^ 32)) (.ofNat (f % 2 ^ 32)) =
              (.ofNat (f % 2 ^ 32), .ofNat (f % 2 ^ 32)) := by
        by_cases hodd : f % 2 = 1
        · exact Or.inr ⟨shiftWhileEven_of_odd hf hodd _,
            shiftWhileEven_of_odd (by omega) (by omega) _⟩
        · left
          rw [shiftWhileEven_of_even hflow hflow hpos (by omega), shiftWhileEven,
            mod_two_eq hf 0 (by norm_num), Number.eq_ofNat hf (by norm_num),
            dif_pos (by simp; omega), shr_one_of_low hf hflow]
      simp only [moveUp, hright hf, hright (show f % 2 ^ 32 < 2 ^ 53 by omega), if_true]
      rcases hshift with h | ⟨h₁, h₂⟩
      · rw [h]
      · rw [h₁, h₂, shr_one_of_low hf hflow, Number.shr_one_ofNat hflow]
    · rw [moveUp_of_ne hf hs hne, moveUp_of_ne (by omega) (by omega) (by omega),
        shr_one_of_low hf hflow, shr_one_of_low hs hlow, Number.shr_one_ofNat hflow,
        Number.shr_one_ofNat hlow]

/-- **With equal high bits the loop is that of the low bits.** -/
theorem consistencyLoop_low (fr sr : Digest) (x : JsString) (path : List JsString) (hle : f ≤ s)
    (hs : s < 2 ^ 53) (hhigh : f / 2 ^ 32 = s / 2 ^ 32) (hlow : s % 2 ^ 32 < 2 ^ 31)
    (hpos : 0 < s % 2 ^ 32) :
    consistencyLoop (.ofNat f) (.ofNat s) fr sr (x :: path) =
      consistencyLoop (.ofNat (f % 2 ^ 32)) (.ofNat (s % 2 ^ 32)) fr sr (x :: path) := by
  obtain ⟨hright, hmove⟩ := moveUp_low hle hs hhigh hlow hpos
  rw [consistencyLoop, consistencyLoop, hright, hmove, Number.eq_ofNat hs (by norm_num),
    Number.eq_ofNat (by omega) (by norm_num), decide_eq_decide.mpr (show s = 0 ↔ s % 2 ^ 32 = 0 by omega)]

end wide

/-! ## Inclusion proofs -/

/-- A loop that ends has read its path. -/
theorem length_loopSteps {fn sn sn' : Number} {fr sr fr' sr' : Digest} {path : List JsString}
    (h : consistencyLoop fn sn fr sr path = .ok (sn', fr', sr')) :
    (loopSteps fn sn path).length = path.length := by
  induction path generalizing fn sn fr sr with
  | nil => rfl
  | cons x path ih =>
    obtain ⟨-, fr₁, sr₁, hrest⟩ := eq_false_of_consistencyLoop_cons h
    rw [consistencyLoop] at h
    rw [loopSteps]
    cases hnode : hexToBuf x with
    | error e =>
      rw [hnode] at h
      split_ifs at h
    | ok node => exact congrArg (· + 1) (ih hrest)

/-- On naturals below `2 ^ 31` a loop that ends at the top has read one node for each step. -/
theorem length_eq_of_consistencyLoop {fn sn : ℕ} {sn' : Number} {fr sr fr' sr' : Digest}
    {path : List JsString} (hle : fn ≤ sn) (hs : sn < 2 ^ 31)
    (h : consistencyLoop (.ofNat fn) (.ofNat sn) fr sr path = .ok (sn', fr', sr'))
    (htop : sn'.eq (.ofNat 0) = true) : path.length = (levelDirs fn sn).length := by
  rw [← length_loopSteps h, ← map_fst_loopSteps hle hs h htop, List.length_map]

/-- The positions at which the loop reads exactly the steps of the position: the last position has
no more than 32 bits; or bit 31 of it is set, and the loop never ends at the top; or the position
is the last one and a power of two. -/
def LoopExact (fn sn : ℕ) : Prop :=
  sn < 2 ^ 32 ∨ 2 ^ 31 ≤ sn % 2 ^ 32 ∨ fn = sn ∧ ∃ j, sn = 2 ^ j

section exact

variable {f s : ℕ}

/-- **Where the loop is exact, a path that ends at the top has one node for each step.** -/
theorem length_eq_of_loopExact {sn' : Number} {fr sr fr' sr' : Digest} {path : List JsString}
    (hle : f ≤ s) (hs : s < 2 ^ 53) (hexact : LoopExact f s)
    (h : consistencyLoop (.ofNat f) (.ofNat s) fr sr path = .ok (sn', fr', sr'))
    (htop : sn'.eq (.ofNat 0) = true) : path.length = (levelDirs f s).length := by
  by_cases hlow : 2 ^ 31 ≤ s % 2 ^ 32
  · rw [ne_zero_of_toInt32_neg (by rw [Number.toInt32_ofNat_of_le hs hlow]; omega) h] at htop
    cases htop
  rcases hexact with hlt | hge | ⟨rfl, hpow⟩
  · exact length_eq_of_consistencyLoop hle (by omega) h htop
  · exact absurd hge hlow
  · rcases Nat.lt_or_ge f (2 ^ 32) with hlt | hge
    · exact length_eq_of_consistencyLoop hle (by omega) h htop
    · -- the position ends in 32 zeros, and the first pass leads to the top
      rw [length_levelDirs_self_eq_one_iff.mpr hpow]
      obtain ⟨j, rfl⟩ := hpow
      have hj : 32 ≤ j := (Nat.pow_le_pow_iff_right (by norm_num)).mp hge
      have hzero : 2 ^ j % 2 ^ 32 = 0 := Nat.mod_eq_zero_of_dvd (pow_dvd_pow 2 hj)
      cases path with
      | nil =>
        simp only [consistencyLoop, Except.ok.injEq, Prod.mk.injEq] at h
        obtain ⟨rfl, -, -⟩ := h
        rw [Number.eq_ofNat hs (by norm_num), decide_eq_true_eq] at htop
        exact absurd htop (Nat.two_pow_pos j).ne'
      | cons x path =>
        obtain ⟨-, fr₁, sr₁, hrest⟩ := eq_false_of_consistencyLoop_cons h
        rw [moveUp_self_of_low_eq_zero hs (Nat.two_pow_pos j) hzero] at hrest
        have hnil := length_le_size (s := 0) (by norm_num) hrest
        rw [Nat.size_zero] at hnil
        rw [List.length_cons]
        omega

/-- **Elsewhere a path of another length ends at the top.** -/
theorem exists_length_ne (hle : f ≤ s) (hs : s < 2 ^ 53) (hexact : ¬ LoopExact f s)
    (fr sr : Digest) :
    ∃ path fr' sr', consistencyLoop (.ofNat f) (.ofNat s) fr sr path = .ok (.ofNat 0, fr', sr') ∧
      path.length ≠ (levelDirs f s).length := by
  simp only [LoopExact, not_or, not_lt, not_le] at hexact
  obtain ⟨hwide, hlow, hlast⟩ := hexact
  have hne : (Number.ofNat s).eq (.ofNat 0) = false := by
    rw [Number.eq_ofNat hs (by norm_num), decide_eq_false_iff_not]
    omega
  by_cases hhigh : f / 2 ^ 32 = s / 2 ^ 32
  · have hsum := length_levelDirs_add hle hhigh
    have hself := length_levelDirs_self_pos (show 0 < s / 2 ^ 32 by omega)
    rcases Nat.eq_zero_or_pos (s % 2 ^ 32) with hzero | hpos
    · -- the last node, in a level that the first pass leaves
      obtain rfl : f = s := by omega
      obtain ⟨x, path, fr', sr', hpath, hnil⟩ := @exists_cons (.ofNat f) _ fr sr (· = []) hne
        fun fr₁ sr₁ => ⟨[], fr₁, sr₁, by
          rw [moveUp_self_of_low_eq_zero hs (by omega) hzero]
          rfl, rfl⟩
      refine ⟨x :: path, fr', sr', hpath, ?_⟩
      rw [hnil, List.length_singleton]
      exact fun hone => hlast ⟨rfl, length_levelDirs_self_eq_one_iff.mp hone.symm⟩
    · obtain ⟨path, fr', sr', hpath, -⟩ := exists_path (.ofNat (f % 2 ^ 32)) fr sr hlow
      have hlen := length_eq_of_consistencyLoop (by omega) hlow hpath (by simp)
      cases path with
      | nil =>
        simp only [consistencyLoop, Except.ok.injEq, Prod.mk.injEq] at hpath
        exact absurd (Number.ofNat_injOn (by omega) (by norm_num) hpath.1) hpos.ne'
      | cons x path =>
        refine ⟨x :: path, fr', sr', ?_, by omega⟩
        rw [consistencyLoop_low fr sr x path hle hs hhigh hlow hpos]
        exact hpath
  · have hdiv : f / 2 ^ 32 < s / 2 ^ 32 := by omega
    obtain ⟨x, path, fr', sr', hpath, hlen⟩ := @exists_cons (.ofNat f) _ fr sr
      (fun path => path.length ≤ (s % 2 ^ 32 / 2).size) hne (by
        intro fr₁ sr₁
        rw [moveUp_of_ne (by omega) hs (by rintro rfl; exact hhigh rfl), shr_one_of_low hs hlow]
        exact exists_path _ fr₁ sr₁ (by omega))
    have hsize : (s % 2 ^ 32 / 2).size ≤ 30 := Nat.size_le.mpr (by omega)
    have hsteps := lt_length_levelDirs hdiv
    refine ⟨x :: path, fr', sr', hpath, ?_⟩
    rw [List.length_cons]
    omega

end exact

/-- **For which leaves and sizes every accepted path has the length of the audit path.** -/
theorem length_of_verifyInclusion_iff {m n : ℕ} (hm : m < n) (hn : n < 2 ^ 53) :
    (∀ (p : InclusionProof) (d : LeafData) (root : JsString), p.leafIndex.eq (.ofNat m) = true →
        p.treeSize.eq (.ofNat n) = true → (verifyInclusion p d root).valid = true →
        p.path.length = auditLength m n) ↔
      LoopExact m (n - 1) := by
  rw [auditLength_eq, dirs_eq_levelDirs hm]
  have hsub : (Number.ofNat n).sub (.ofNat 1) = .ofNat (n - 1) := Number.sub_ofNat hn (by omega)
  constructor
  · intro h
    by_contra hexact
    obtain ⟨path, fr', sr', hpath, hlen⟩ := exists_length_ne (by omega) (by omega) hexact
      (hashLeaf (.buffer [])) (hashLeaf (.buffer []))
    refine hlen (h ⟨.ofNat m, .ofNat n, path⟩ (.buffer []) (toHex sr'.bytes) ?_ ?_
      (verifyInclusion_valid_iff.mpr ⟨?_, ?_, ?_, .ofNat 0, sr', ?_, ?_, rfl⟩))
    · rw [Number.eq_ofNat (by omega) (by omega), decide_eq_true rfl]
    · rw [Number.eq_ofNat hn hn, decide_eq_true rfl]
    · rw [Number.le_ofNat hn (by norm_num), decide_eq_false (by omega)]
    · rw [Number.lt_ofNat (by omega) (by norm_num), decide_eq_false (by omega)]
    · rw [Number.le_ofNat hn (by omega), decide_eq_false (by omega)]
    · rw [hsub, inclusionLoop_eq _ _ (hashLeaf (.buffer [])), hpath]
      rfl
    · simp
  · intro hexact p d root hp hsize hacc
    obtain ⟨-, -, -, sn, sr, hloop, htop, -⟩ := verifyInclusion_valid_iff.mp hacc
    obtain ⟨fr, hcons⟩ := exists_consistencyLoop (hashLeaf d) hloop
    have hsize' : p.treeSize = .ofNat n := by
      rcases Number.eq_ofNat_cases hn hsize with h | ⟨-, h⟩
      · exact h
      · omega
    rw [hsize', hsub] at hcons
    rcases Number.eq_ofNat_cases (by omega) hp with h | ⟨h, rfl⟩
    · rw [h] at hcons
      exact length_eq_of_loopExact (by omega) (by omega) hexact hcons htop
    · rw [h, (loop_negZero _ _ _ _).1] at hcons
      exact length_eq_of_loopExact (by omega) (by omega) hexact hcons htop

/-- **Above `2 ^ 31` leaves nothing is accepted**, up to the most that an array can hold. -/
theorem valid_verifyInclusion_of_wide {p : InclusionProof} {d : LeafData} {root : JsString} {n : ℕ}
    (hn : 2 ^ 31 < n) (hn' : n ≤ 2 ^ 32) (hsize : p.treeSize = .ofNat n) :
    (verifyInclusion p d root).valid = false := by
  rw [← Bool.not_eq_true]
  intro hvalid
  obtain ⟨-, -, -, sn, sr, hloop, htop, -⟩ := verifyInclusion_valid_iff.mp hvalid
  obtain ⟨fr, hcons⟩ := exists_consistencyLoop (hashLeaf d) hloop
  rw [hsize, Number.sub_ofNat (by omega) (by omega)] at hcons
  have hneg : (Number.ofNat (n - 1)).toInt32 < 0 := by
    rw [Number.toInt32_ofNat_of_le (by omega) (by omega)]
    omega
  rw [ne_zero_of_toInt32_neg hneg hcons] at htop
  cases htop

/-! ## Consistency proofs -/

section consistency

variable {a b : ℕ}

/-- The power-of-two test sees the low bits of a size. -/
theorem isPowerOfTwo_wide (hpos : 0 < a) (ha : a < 2 ^ 53) :
    isPowerOfTwo (.ofNat a) = true ↔ a % 2 ^ 32 = 0 ∨ ∃ j, a % 2 ^ 32 = 2 ^ j := by
  rw [isPowerOfTwo, Number.lt_ofNat (by norm_num) ha, decide_eq_true hpos, Bool.true_and,
    Number.sub_ofNat ha (show 1 ≤ a from hpos), Number.bitAnd_ofNat_eq_zero_iff ha (by omega)]
  rcases Nat.eq_zero_or_pos (a % 2 ^ 32) with hzero | hlow
  · rw [hzero]
    simp
  · rw [show (a - 1) % 2 ^ 32 = a % 2 ^ 32 - 1 by omega,
      Nat.and_sub_one_eq_zero_iff_isPowerOfTwo hlow.ne']
    simp only [hlow.ne', false_or, Nat.isPowerOfTwo]

/-- The number of nodes read before the loop. -/
def seedLength (firstSize : Number) : ℕ := if isPowerOfTwo firstSize then 0 else 1

/-- Where the loop starts. -/
theorem consistencyStart_wide (ha : 1 ≤ a) (hab : a < b) (hb : b < 2 ^ 53) (path : List JsString) :
    consistencyStart ⟨.ofNat a, .ofNat b, path⟩ =
      shiftWhileOdd (.ofNat (a - 1)) (.ofNat (b - 1)) := by
  rw [consistencyStart, Number.sub_ofNat (by omega) ha, Number.sub_ofNat hb (by omega)]

/-- An even first position stays where it is. -/
theorem shiftWhileOdd_of_even {f : ℕ} (hf : f < 2 ^ 53) (heven : f % 2 = 0) (sn : Number) :
    shiftWhileOdd (.ofNat f) sn = (.ofNat f, sn) := by
  rw [shiftWhileOdd, mod_two_eq hf 1 (by norm_num), dif_neg (by simp [heven])]

/-- An odd first position is shifted once, and then on. -/
theorem shiftWhileOdd_of_odd {f : ℕ} (hf : f < 2 ^ 53) (hodd : f % 2 = 1) (sn : Number) :
    shiftWhileOdd (.ofNat f) sn = shiftWhileOdd ((Number.ofNat f).shr 1) (sn.shr 1) := by
  rw [shiftWhileOdd, mod_two_eq hf 1 (by norm_num), dif_pos (by simp [hodd])]

/-- The second inner loop keeps bit 31 of the last position set. -/
theorem toInt32_shiftWhileOdd_neg {fn sn : Number} (h : sn.toInt32 < 0) :
    (shiftWhileOdd fn sn).2.toInt32 < 0 := by
  induction fn, sn using shiftWhileOdd.induct with
  | case1 fn sn hodd ih =>
    rw [shiftWhileOdd, dif_pos hodd]
    refine ih ?_
    rw [toInt32_shr_one]
    omega
  | case2 fn sn heven =>
    rw [shiftWhileOdd, dif_neg heven]
    exact h

/-- An odd first position with bit 31 clear: the loop starts where that of the low bits does. -/
theorem shiftWhileOdd_low {f s : ℕ} (hf : f < 2 ^ 53) (hs : s < 2 ^ 53) (hodd : f % 2 = 1)
    (hflow : f % 2 ^ 32 < 2 ^ 31) (hlow : s % 2 ^ 32 < 2 ^ 31) :
    shiftWhileOdd (.ofNat f) (.ofNat s) =
      (.ofNat (lastComplete (f % 2 ^ 32) (s % 2 ^ 32)).1,
        .ofNat (lastComplete (f % 2 ^ 32) (s % 2 ^ 32)).2) := by
  rw [shiftWhileOdd_of_odd hf hodd, shr_one_of_low hf hflow, shr_one_of_low hs hlow,
    shiftWhileOdd_ofNat (by omega) (by omega)]
  conv_rhs => rw [lastComplete, dif_pos (by omega)]

/-- An odd first position with bit 31 set becomes negative, and stays where it is. -/
theorem shiftWhileOdd_neg {f s : ℕ} (hf : f < 2 ^ 53) (hs : s < 2 ^ 53) (hodd : f % 2 = 1)
    (hflow : 2 ^ 31 ≤ f % 2 ^ 32) (hlow : s % 2 ^ 32 < 2 ^ 31) :
    shiftWhileOdd (.ofNat f) (.ofNat s) =
      (.ofInt ((((f % 2 ^ 32 : ℕ) : ℤ) - 2 ^ 32) / 2), .ofNat (s % 2 ^ 32 / 2)) := by
  have hmod := Number.mod_two_ofInt_of_nonpos (i := (((f % 2 ^ 32 : ℕ) : ℤ) - 2 ^ 32) / 2)
    (by omega) (by omega)
  rw [shiftWhileOdd_of_odd hf hodd, Number.shr_one_eq (.ofNat f),
    Number.toInt32_ofNat_of_le hf hflow, shr_one_of_low hs hlow, shiftWhileOdd,
    dif_neg (by rw [hmod]; exact Bool.false_ne_true)]

/-- The sizes between which the loop reads exactly the steps of a consistency proof: the later size
is at most `2 ^ 32`; or bit 31 of the last position is set, and the loop never ends at the top; or
the first loop makes the first position negative, and the bits left of the last one happen to be as
many as the proof has nodes. -/
def ConsistencyExact (a b : ℕ) : Prop :=
  b - 1 < 2 ^ 32 ∨ 2 ^ 31 ≤ (b - 1) % 2 ^ 32 ∨
    a % 2 = 0 ∧ 2 ^ 31 ≤ (a - 1) % 2 ^ 32 ∧
      ((b - 1) % 2 ^ 32 / 2).size + (if a % 2 ^ 32 = 0 then 0 else 1) = proofLength a b

/-- With bit 31 of the first position set, the power-of-two test is one of divisibility. -/
theorem seedLength_of_le (ha : 1 ≤ a) (ha53 : a < 2 ^ 53) (h : 2 ^ 31 ≤ (a - 1) % 2 ^ 32)
    (heven : a % 2 = 0) : seedLength (.ofNat a) = if a % 2 ^ 32 = 0 then 0 else 1 := by
  have hiff : isPowerOfTwo (.ofNat a) = true ↔ a % 2 ^ 32 = 0 := by
    rw [isPowerOfTwo_wide ha ha53, or_iff_left_iff_imp]
    rintro ⟨j, hj⟩
    -- a power of two above `2 ^ 31` has no room below `2 ^ 32`
    exfalso
    have hpos := Nat.two_pow_pos j
    have hgt : 2 ^ 31 < 2 ^ j := by omega
    have hlt : 2 ^ j < 2 ^ 32 := by omega
    have h₁ := (Nat.pow_lt_pow_iff_right (by norm_num)).mp hgt
    have h₂ := (Nat.pow_lt_pow_iff_right (by norm_num)).mp hlt
    omega
  simp only [seedLength, hiff]

/-- **Where the sizes are exact, a path that ends at the top has the proof's length.** -/
theorem length_eq_of_consistencyExact {sn' : Number} {x fr' sr' : Digest} {path : List JsString}
    (ha : 1 ≤ a) (hab : a < b) (hb : b < 2 ^ 53) (hexact : ConsistencyExact a b)
    (h : consistencyLoop (shiftWhileOdd (.ofNat (a - 1)) (.ofNat (b - 1))).1
      (shiftWhileOdd (.ofNat (a - 1)) (.ofNat (b - 1))).2 x x path = .ok (sn', fr', sr'))
    (htop : sn'.eq (.ofNat 0) = true) :
    path.length + seedLength (.ofNat a) = proofLength a b := by
  classical
  by_cases hlow : 2 ^ 31 ≤ (b - 1) % 2 ^ 32
  · have hneg : (Number.ofNat (b - 1)).toInt32 < 0 := by
      rw [Number.toInt32_ofNat_of_le (by omega) hlow]
      omega
    rw [ne_zero_of_toInt32_neg (toInt32_shiftWhileOdd_neg hneg) h] at htop
    cases htop
  rcases hexact with hlt | hge | ⟨heven, hfirst, hsize⟩
  · have hlt31 : b - 1 < 2 ^ 31 := by omega
    rw [shiftWhileOdd_ofNat (by omega) hlt31] at h
    obtain ⟨hle, hle'⟩ := lastComplete_le (show a - 1 ≤ b - 1 by omega)
    rw [length_eq_of_consistencyLoop hle (by omega) h htop, proofLength_eq ha hab,
      proofDirs_eq_levelDirs ha hab]
    simp only [seedLength, isPowerOfTwo_ofNat (show a < 2 ^ 31 by omega)]
  · exact absurd hge hlow
  · rw [shiftWhileOdd_neg (by omega) (by omega) (by omega) hfirst (by omega)] at h
    obtain ⟨hlen, -⟩ := length_eq_size_of_nonpos (by omega) (by omega) (by omega) h htop
    rw [hlen, seedLength_of_le ha (by omega) hfirst heven, hsize]

/-- An even first position that ends in 32 zeros: the test takes the earlier size for a power of
two, and every step goes left. -/
theorem exists_length_ne_of_low_eq_zero {f s : ℕ} (hlt : f < s) (hs : s < 2 ^ 53)
    (hlow : s % 2 ^ 32 < 2 ^ 31) (hwide : 2 ^ 32 ≤ s) (hzero : f % 2 ^ 32 = 0) (x : Digest) :
    ∃ path sr', consistencyLoop (.ofNat f) (.ofNat s) x x path = .ok (.ofNat 0, x, sr') ∧
      path.length < (levelDirs f s).length + if f = 0 then 0 else 1 := by
  have hne : (Number.ofNat s).eq (.ofNat 0) = false := by
    rw [Number.eq_ofNat hs (by norm_num), decide_eq_false_iff_not]
    omega
  have hleft : isRightChild (.ofNat f) (.ofNat s) = false := by
    rw [isRightChild_ofNat (by omega) hs, decide_eq_false_iff_not]
    omega
  have hfirst : Number.ofNat (f % 2 ^ 32 / 2) = .ofInt 0 := by
    rw [hzero, Number.ofNat_eq_ofInt]
    rfl
  obtain ⟨path, fr', sr', hpath, -⟩ := exists_path (.ofInt 0) x (hashNode x (sha256 []))
    (show s % 2 ^ 32 / 2 < 2 ^ 31 by omega)
  obtain ⟨hlen, rfl⟩ := length_eq_size_of_nonpos le_rfl (by norm_num) (by omega) hpath
    (by simp)
  refine ⟨toHex (sha256 []).bytes :: path, sr', ?_, ?_⟩
  · rw [consistencyLoop, hne, hexToBuf_toHex, hleft, moveUp_of_ne (by omega) hs hlt.ne,
      shr_one_of_low (by omega) (by omega), shr_one_of_low hs hlow, hfirst]
    simp only [Bool.false_eq_true, if_false]
    exact hpath
  · rw [List.length_cons, hlen]
    by_cases hhigh : f / 2 ^ 32 = s / 2 ^ 32
    · have hsum := length_levelDirs_add hlt.le hhigh
      have hself := length_levelDirs_self_pos (show 0 < s / 2 ^ 32 by omega)
      rw [hzero, length_levelDirs_zero, size_eq_size_half (by omega)] at hsum
      omega
    · have hsteps := lt_length_levelDirs (show f / 2 ^ 32 < s / 2 ^ 32 by omega)
      have hsize : (s % 2 ^ 32 / 2).size ≤ 30 := Nat.size_le.mpr (by omega)
      omega

/-- An odd first position with bit 31 clear: the loop climbs the tree of the low bits, which is
smaller. -/
theorem exists_length_ne_of_odd {f s t : ℕ} (hlt : f < s) (hs : s < 2 ^ 53)
    (hlow : s % 2 ^ 32 < 2 ^ 31) (hwide : 2 ^ 32 ≤ s) (hflow : f % 2 ^ 32 < 2 ^ 31)
    (ht : EndsInOnes (f % 2 ^ 32) t) (x : Digest) :
    ∃ path fr' sr', consistencyLoop (.ofNat (f % 2 ^ 32 / 2 ^ t)) (.ofNat (s % 2 ^ 32 / 2 ^ t)) x x
        path = .ok (.ofNat 0, fr', sr') ∧
      (f % 2 ^ 32 / 2 ^ t = 0 → fr' = x) ∧
      path.length + (if f % 2 ^ 32 / 2 ^ t = 0 then 0 else 1) <
        (levelDirs (f / 2 ^ t) (s / 2 ^ t)).length + if f / 2 ^ t = 0 then 0 else 1 := by
  have hpow : 2 ^ t ≤ 2 ^ 31 := ht.pow_le.trans (by omega)
  have ht31 : t ≤ 31 := (Nat.pow_le_pow_iff_right (by norm_num)).mp hpow
  have hsplit : 2 ^ t * 2 ^ (32 - t) = 2 ^ 32 := by rw [← pow_add]; congr 1; omega
  have hsplit' : 2 ^ t * 2 ^ (31 - t) = 2 ^ 31 := by rw [← pow_add]; congr 1; omega
  have hle31 : ∀ {n : ℕ}, n < 2 ^ 31 → n / 2 ^ t < 2 ^ 31 := fun h =>
    (Nat.div_le_self _ _).trans_lt h
  obtain ⟨path, fr', sr', hpath, hlen⟩ := exists_path (.ofNat (f % 2 ^ 32 / 2 ^ t)) x x
    (hle31 hlow)
  refine ⟨path, fr', sr', hpath, ?_, ?_⟩
  · intro hzero
    rw [hzero, Number.ofNat_eq_ofInt 0] at hpath
    exact (length_eq_size_of_nonpos le_rfl (by norm_num) (hle31 hlow) hpath
      (Number.ofNat_eq_ofInt 0 ▸ Number.eq_ofNat_self 0)).2
  have hhigh : ∀ n, n / 2 ^ t / 2 ^ (32 - t) = n / 2 ^ 32 := fun n => by
    rw [Nat.div_div_eq_div_mul, hsplit]
  have hmod : ∀ n, n / 2 ^ t % 2 ^ (32 - t) = n % 2 ^ 32 / 2 ^ t := fun n => by
    rw [← Nat.mod_mul_right_div_self, hsplit]
  by_cases heq : f / 2 ^ 32 = s / 2 ^ 32
  · -- the path of the low bits, without the steps of the high ones
    have hsum := length_levelDirs_add (k := 32 - t) (Nat.div_le_div_right hlt.le)
      (by rw [hhigh, hhigh, heq])
    rw [hmod, hmod, hhigh] at hsum
    have hself := length_levelDirs_self_pos (show 0 < s / 2 ^ 32 by omega)
    rw [length_eq_of_consistencyLoop (Nat.div_le_div_right (by omega)) (hle31 hlow) hpath
      (by simp)]
    have hne : f / 2 ^ t ≠ 0 := by
      intro hzero
      have := hhigh f
      rw [hzero, Nat.zero_div] at this
      omega
    rw [if_neg hne]
    split_ifs <;> omega
  · have hsteps := lt_length_levelDirs
      (show f / 2 ^ t / 2 ^ (32 - t) < s / 2 ^ t / 2 ^ (32 - t) by rw [hhigh, hhigh]; omega)
    have hsize : (s % 2 ^ 32 / 2 ^ t).size ≤ 31 - t := by
      rw [Nat.size_le, Nat.div_lt_iff_lt_mul (Nat.two_pow_pos t), mul_comm, hsplit']
      exact hlow
    split_ifs <;> omega

/-- **Elsewhere a path of another length ends at the top**, without touching the earlier root where
that is where the loop starts. -/
theorem exists_consistency_length_ne (ha : 1 ≤ a) (hab : a < b) (hb : b < 2 ^ 53)
    (hexact : ¬ ConsistencyExact a b) (x : Digest) :
    ∃ path fr' sr', consistencyLoop (shiftWhileOdd (.ofNat (a - 1)) (.ofNat (b - 1))).1
        (shiftWhileOdd (.ofNat (a - 1)) (.ofNat (b - 1))).2 x x path = .ok (.ofNat 0, fr', sr') ∧
      (isPowerOfTwo (.ofNat a) = true → fr' = x) ∧
      path.length + seedLength (.ofNat a) ≠ proofLength a b := by
  classical
  simp only [ConsistencyExact, not_or, not_and, not_lt, not_le] at hexact
  obtain ⟨hwide, hlow, hchance⟩ := hexact
  have hlength := proofLength_eq ha hab
  rw [proofDirs_eq_levelDirs ha hab] at hlength
  rcases Nat.mod_two_eq_zero_or_one (a - 1) with heven | hodd
  · have hzero : EndsInOnes (a - 1) 0 := by simp [EndsInOnes, Nat.mod_one, heven]
    have hpow := succ_eq_pow_iff hzero
    rw [pow_zero, Nat.div_one, Nat.sub_add_cancel ha] at hpow
    rw [lastComplete_eq _ hzero, pow_zero, Nat.div_one, Nat.div_one] at hlength
    simp only [hpow] at hlength
    clear hpow
    rw [shiftWhileOdd_of_even (by omega) heven]
    by_cases hflow : (a - 1) % 2 ^ 32 = 0
    · obtain ⟨path, sr', hpath, hlen⟩ := exists_length_ne_of_low_eq_zero (by omega) (by omega)
        hlow hwide hflow x
      have hseed : seedLength (.ofNat a) = 0 := by
        rw [seedLength, if_pos ((isPowerOfTwo_wide ha (by omega)).mpr (Or.inr ⟨0, by omega⟩))]
      refine ⟨path, x, sr', hpath, fun _ => rfl, ?_⟩
      rw [hlength, hseed]
      omega
    · have hseed : ¬ isPowerOfTwo (.ofNat a) = true := by
        rw [isPowerOfTwo_wide ha (by omega), not_or]
        refine ⟨by omega, ?_⟩
        rintro ⟨j, hj⟩
        rcases j with - | j
        · omega
        · rw [pow_succ] at hj
          omega
      have hloop : ¬ LoopExact (a - 1) (b - 1) := by
        simp only [LoopExact, not_or, not_and, not_lt, not_le]
        exact ⟨hwide, hlow, fun heq => by omega⟩
      obtain ⟨path, fr', sr', hpath, hlen⟩ := exists_length_ne (by omega) (by omega) hloop x x
      refine ⟨path, fr', sr', hpath, fun h => absurd h hseed, ?_⟩
      rw [hlength, seedLength, if_neg hseed, if_neg (by omega)]
      omega
  · rcases Nat.lt_or_ge ((a - 1) % 2 ^ 32) (2 ^ 31) with hflow | hflow
    · obtain ⟨t, ht⟩ := exists_endsInOnes ((a - 1) % 2 ^ 32)
      have hpow31 : 2 ^ t ≤ 2 ^ 31 := ht.pow_le.trans (by omega)
      have ht31 : t ≤ 31 := (Nat.pow_le_pow_iff_right (by norm_num)).mp hpow31
      have hhigh : EndsInOnes (a - 1) t := ht.of_mod (by omega)
      have hpow := succ_eq_pow_iff hhigh
      rw [Nat.sub_add_cancel ha] at hpow
      rw [lastComplete_eq _ hhigh] at hlength
      simp only [hpow] at hlength
      clear hpow
      have htest : isPowerOfTwo (.ofNat a) = true ↔ (a - 1) % 2 ^ 32 / 2 ^ t = 0 := by
        rw [isPowerOfTwo_wide ha (by omega), ← succ_eq_pow_iff ht,
          show (a - 1) % 2 ^ 32 + 1 = a % 2 ^ 32 by omega, or_iff_right (by omega)]
      obtain ⟨path, fr', sr', hpath, hfr, hlen⟩ := exists_length_ne_of_odd (by omega) (by omega)
        hlow hwide hflow ht x
      rw [shiftWhileOdd_low (by omega) (by omega) hodd hflow hlow, lastComplete_eq _ ht]
      refine ⟨path, fr', sr', hpath, fun h => hfr (htest.mp h), ?_⟩
      simp only [seedLength, htest]
      omega
    · rw [shiftWhileOdd_neg (by omega) (by omega) hodd hflow hlow]
      obtain ⟨path, fr', sr', hpath, -⟩ := exists_path
        (.ofInt (((((a - 1) % 2 ^ 32 : ℕ) : ℤ) - 2 ^ 32) / 2)) x x
        (show (b - 1) % 2 ^ 32 / 2 < 2 ^ 31 by omega)
      obtain ⟨hlen, hfr⟩ := length_eq_size_of_nonpos (by omega) (by omega) (by omega) hpath
        (by simp)
      refine ⟨path, fr', sr', hpath, fun _ => hfr, ?_⟩
      rw [hlen, seedLength_of_le ha (by omega) hflow (by omega)]
      exact hchance (by omega) hflow

/-- The part of the path that the loop reads. -/
theorem length_of_consistencySeed {p : ConsistencyProof} {firstRoot : JsString} {seed : Digest}
    {path : List JsString} (h : consistencySeed p firstRoot = .ok (seed, path)) :
    p.path.length = path.length + seedLength p.firstSize := by
  rw [consistencySeed] at h
  rw [seedLength]
  split_ifs at h ⊢ with hpow
  · cases hroot : hexToBuf firstRoot with
    | error e =>
      rw [hroot] at h
      cases h
    | ok root =>
      rw [hroot] at h
      cases h
      rfl
  · cases hpath : p.path with
    | nil =>
      rw [hpath] at h
      cases h
    | cons node rest =>
      rw [hpath] at h
      simp only at h
      cases hnode : hexToBuf node with
      | error e =>
        rw [hnode] at h
        cases h
      | ok node =>
        rw [hnode] at h
        cases h
        rfl

/-- **Between which sizes every accepted path has the length of the consistency proof.** -/
theorem length_of_verifyConsistency_iff (ha : 1 ≤ a) (hab : a < b) (hb : b < 2 ^ 53) :
    (∀ (p : ConsistencyProof) (firstRoot secondRoot : JsString), p.firstSize.eq (.ofNat a) = true →
        p.secondSize.eq (.ofNat b) = true → (verifyConsistency p firstRoot secondRoot).valid = true →
        p.path.length = proofLength a b) ↔
      ConsistencyExact a b := by
  obtain ⟨h₁, h₂, h₃⟩ := consistency_sizes (by omega) hab hb
  constructor
  · intro h
    by_contra hexact
    obtain ⟨path, fr', sr', hpath, hfr, hlen⟩ := exists_consistency_length_ne ha hab hb hexact
      (sha256 [])
    have heq : ∀ n, n < 2 ^ 53 → (Number.ofNat n).eq (.ofNat n) = true := fun n hn => by
      rw [Number.eq_ofNat hn hn, decide_eq_true rfl]
    by_cases hpow : isPowerOfTwo (.ofNat a) = true
    · obtain rfl := hfr hpow
      rw [seedLength, if_pos hpow, add_zero] at hlen
      refine hlen (h ⟨.ofNat a, .ofNat b, path⟩ (toHex (sha256 []).bytes) (toHex sr'.bytes)
        (heq a (by omega)) (heq b hb) ((verifyConsistency_valid_iff h₁ h₂ h₃).mpr
          ⟨sha256 [], path, .ofNat 0, _, sr', ?_, ?_, by simp, rfl, rfl⟩))
      · rw [consistencySeed, if_pos hpow, hexToBuf_toHex]
      · rw [consistencyStart_wide ha hab hb]
        exact hpath
    · rw [seedLength, if_neg hpow] at hlen
      refine hlen (h ⟨.ofNat a, .ofNat b, toHex (sha256 []).bytes :: path⟩ (toHex fr'.bytes)
        (toHex sr'.bytes) (heq a (by omega)) (heq b hb) ((verifyConsistency_valid_iff h₁ h₂ h₃).mpr
          ⟨sha256 [], path, .ofNat 0, fr', sr', ?_, ?_, by simp, rfl, rfl⟩))
      · rw [consistencySeed, if_neg hpow]
        simp only [hexToBuf_toHex]
      · rw [consistencyStart_wide ha hab hb]
        exact hpath
  · rintro hexact ⟨firstSize, secondSize, path⟩ firstRoot secondRoot hfirst hsecond hacc
    obtain rfl : firstSize = .ofNat a := by
      rcases Number.eq_ofNat_cases (by omega) hfirst with h | ⟨-, h⟩
      · exact h
      · omega
    obtain rfl : secondSize = .ofNat b := by
      rcases Number.eq_ofNat_cases hb hsecond with h | ⟨-, h⟩
      · exact h
      · omega
    obtain ⟨seed, rest, sn, fr, sr, hseed, hloop, htop, -, -⟩ :=
      (verifyConsistency_valid_iff h₁ h₂ h₃).mp hacc
    rw [consistencyStart_wide ha hab hb] at hloop
    rw [length_of_consistencySeed hseed]
    exact length_eq_of_consistencyExact ha hab hb hexact hloop htop

end consistency

/-! ## Every size a proof object can carry -/

/-- **For which sizes the verifiers accept paths of the exact length only**, among the safe
integers. -/
theorem accepted_length_exact_iff (m n a b : ℕ) :
    (m < n → n ≤ 2 ^ 53 - 1 →
      ((∀ (p : InclusionProof) (d : LeafData) (root : JsString), p.leafIndex.eq (.ofNat m) = true →
          p.treeSize.eq (.ofNat n) = true → (verifyInclusion p d root).valid = true →
          p.path.length = auditLength m n) ↔
        LoopExact m (n - 1))) ∧
    (1 ≤ a → a < b → b ≤ 2 ^ 53 - 1 →
      ((∀ (p : ConsistencyProof) (firstRoot secondRoot : JsString),
          p.firstSize.eq (.ofNat a) = true → p.secondSize.eq (.ofNat b) = true →
          (verifyConsistency p firstRoot secondRoot).valid = true →
          p.path.length = proofLength a b) ↔
        ConsistencyExact a b)) :=
  ⟨fun hm hn => length_of_verifyInclusion_iff hm (by omega),
    fun ha hab hb => length_of_verifyConsistency_iff ha hab (by omega)⟩

/-- The sizes of a small log are exact. -/
theorem accepted_length_exact_small :
    (∀ (p : InclusionProof) (d : LeafData) (root : JsString), p.leafIndex.eq (.ofNat 2) = true →
        p.treeSize.eq (.ofNat 3) = true → (verifyInclusion p d root).valid = true →
        p.path.length = auditLength 2 3) ∧
      ∀ (p : ConsistencyProof) (firstRoot secondRoot : JsString),
        p.firstSize.eq (.ofNat 2) = true → p.secondSize.eq (.ofNat 3) = true →
        (verifyConsistency p firstRoot secondRoot).valid = true → p.path.length = proofLength 2 3 :=
  ⟨((accepted_length_exact_iff 2 3 2 3).1 (by norm_num) (by norm_num)).mpr (Or.inl (by norm_num)),
    ((accepted_length_exact_iff 2 3 2 3).2 (by norm_num) (by norm_num) (by norm_num)).mpr
      (Or.inl (by norm_num))⟩

/-- A proof of one node for the first leaf of `2 ^ 32 + 1`. -/
def truncatedProof : InclusionProof :=
  ⟨.ofNat 0, .ofNat (2 ^ 32 + 1), [toHex (hashLeaf (.string (js "b"))).bytes]⟩

/-- **The first of `2 ^ 32 + 1` leaves is accepted with a path of one node**, where the tree has 33
levels: the shift of the last position `2 ^ 32` gives zero. -/
theorem truncated_accepted :
    ¬ ((∀ m n : ℕ, m < n → n ≤ 2 ^ 53 - 1 →
        ∀ (p : InclusionProof) (d : LeafData) (root : JsString), p.leafIndex.eq (.ofNat m) = true →
          p.treeSize.eq (.ofNat n) = true → (verifyInclusion p d root).valid = true →
          p.path.length = auditLength m n) ∧
      ∀ a b : ℕ, 1 ≤ a → a < b → b ≤ 2 ^ 53 - 1 →
        ∀ (p : ConsistencyProof) (firstRoot secondRoot : JsString),
          p.firstSize.eq (.ofNat a) = true → p.secondSize.eq (.ofNat b) = true →
          (verifyConsistency p firstRoot secondRoot).valid = true →
          p.path.length = proofLength a b) := by
  rintro ⟨h, -⟩
  have hlen := h 0 (2 ^ 32 + 1) (by norm_num) (by norm_num) truncatedProof (.string (js "a"))
    (toHex (hashNode (hashLeaf (.string (js "a"))) (hashLeaf (.string (js "b")))).bytes)
    (Number.eq_ofNat_self _) (Number.eq_ofNat_self _) (by decide +kernel)
  rw [auditLength_eq, dirs_eq_levelDirs (by norm_num), Nat.add_sub_cancel, length_levelDirs_zero,
    Nat.size_pow] at hlen
  exact absurd hlen (by decide)

end AgentEval.Evidence
