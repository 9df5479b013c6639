import DeskCalculator.Proofs.Binary64.Growth
import DeskCalculator.Proofs.Number.HalfUp

namespace DeskCalculator

namespace Number

def IsProper : Number → Prop
  | .int _ => True
  | .real x => x.isNaN = false

def Within (k : Nat) : Number → Prop
  | .int n => n.natAbs ≤ twoTo k
  | .real x => x.Within k

structure IsFactor (low high : Nat) (n : Number) (x : Binary64) : Prop where
  toBinary64 : n.toBinary64 = .ok x
  units_ge : twoTo (1074 - low) ≤ x.units.natAbs
  within : n.Within high
  low_le : low ≤ 1074
  high_le : high ≤ 1020

inductive Combines (exact : Int → Int → Int) (rounded : Binary64 → Binary64 → Binary64)
    (n m : Number) : Except Failure Number → Prop where
  | exact {i k : Int} : n = .int i → m = .int k →
      Combines exact rounded n m (.ok (.int (exact i k)))
  | rounded {x y : Binary64} : n.toBinary64 = .ok x → m.toBinary64 = .ok y →
      Combines exact rounded n m (.ok (.real (rounded x y)))
  | tooLarge : n.toBinary64 = .error (.misuse .tooLarge) →
      Combines exact rounded n m (.error (.misuse .tooLarge))

inductive Divides (n m : Number) : Except Failure Binary64 → Prop where
  | ratio {i k : Int} {s : Bool} : n = .int i → k ≠ 0 →
      (Binary64.ofRatio s i.natAbs k.natAbs).isFinite = true →
      Divides n m (.ok (.ofRatio s i.natAbs k.natAbs))
  | quotientTooLarge {i k : Int} {s : Bool} : n = .int i → k ≠ 0 →
      (Binary64.ofRatio s i.natAbs k.natAbs).isFinite = false →
      Divides n m (.error (.misuse .quotientTooLarge))
  | rounded {x y : Binary64} : n.toBinary64 = .ok x → m.toBinary64 = .ok y →
      Divides n m (.ok (x / y))
  | tooLarge : n.toBinary64 = .error (.misuse .tooLarge) →
      Divides n m (.error (.misuse .tooLarge))

inductive Computes (good : Number → Prop) : Except Failure Quantity → Prop where
  | number {r : Number} : good r → Computes good (.ok r.quantity)
  | overflow {m : Misuse} : m.name = "OverflowError" → Computes good (.error (.misuse m))

structure Grows (n : Number) (digits : Nat) (result : Except Failure Quantity) : Prop where
  isProper : n.IsProper → Computes IsProper result
  within {k : Nat} : n.Within k → k + digits ≤ 1023 →
    ∃ r : Number, result = .ok r.quantity ∧ r.Within (k + digits)

section Operands

variable {n m : Number} {x y : Binary64} {k : Nat}

theorem toBinary64_cases (n : Number) :
    (∃ x, n.toBinary64 = .ok x) ∨ n.toBinary64 = .error (.misuse .tooLarge) := by
  cases n with
  | real x => exact .inl ⟨x, rfl⟩
  | int i =>
    simp only [toBinary64]
    split
    · exact .inl ⟨_, rfl⟩
    · exact .inr rfl

theorem IsProper.isNaN (h : n.IsProper) (hx : n.toBinary64 = .ok x) : x.isNaN = false := by
  cases n with
  | real z =>
    cases hx
    exact h
  | int i =>
    simp only [toBinary64] at hx
    split at hx
    · rename_i hfinite
      cases hx
      exact Binary64.isNaN_of_isFinite hfinite
    · cases hx

theorem Within.mono {j : Nat} (h : n.Within j) (hjk : j ≤ k) : n.Within k := by
  cases n with
  | int i => exact Nat.le_trans h (twoTo_le hjk)
  | real x => exact Binary64.Within.mono h hjk

theorem Within.roundable {decimals : Nat} (h : n.Within k) (hk : k + 50 ≤ 1023)
    (h15 : decimals ≤ 15) : n.Roundable decimals := by
  cases n with
  | real x => exact Binary64.Within.isFinite h
  | int i =>
    refine (Binary64.within_ofInt ?_ hk).isFinite
    calc (i * tenTo decimals).natAbs = i.natAbs * tenTo decimals := by
          rw [Int.natAbs_mul, Int.natAbs_natCast]
      _ ≤ twoTo k * tenTo 15 := Nat.mul_le_mul h (tenTo_le h15)
      _ ≤ twoTo k * twoTo 50 := Nat.mul_le_mul_left _ (by decide)
      _ = twoTo (k + 50) := (twoTo_add k 50).symm

theorem Within.exists_toBinary64 (h : n.Within k) (hk : k ≤ 1023) :
    ∃ x, n.toBinary64 = .ok x ∧ x.Within (k + 1) := by
  cases n with
  | real x => exact ⟨x, rfl, Binary64.Within.mono h (Nat.le_succ k)⟩
  | int i =>
    have hwithin := Binary64.within_ofInt h hk
    exact ⟨_, toBinary64_int hwithin.isFinite, hwithin⟩

theorem Within.toBinary64 (h : n.Within k) (hk : k ≤ 1023) (hx : n.toBinary64 = .ok x) :
    x.Within (k + 1) := by
  obtain ⟨z, hz, hwithin⟩ := h.exists_toBinary64 hk
  cases hz.symm.trans hx
  exact hwithin

theorem Within.not_tooLarge (h : n.Within k) (hk : k ≤ 1023) :
    n.toBinary64 ≠ .error (.misuse .tooLarge) := by
  intro hlarge
  obtain ⟨z, hz, -⟩ := h.exists_toBinary64 hk
  cases hz.symm.trans hlarge

theorem Within.ratio {i j : Int} (h : (Number.int i).Within k) (hj : j ≠ 0) (hk : k ≤ 1023)
    (s : Bool) : (Binary64.ofRatio s i.natAbs j.natAbs).Within (k + 1) := by
  have hpos : 0 < j.natAbs := Int.natAbs_pos.mpr hj
  exact Binary64.within_ofRatio hpos (Nat.le_trans h (Nat.le_mul_of_pos_right _ hpos)) hk s

end Operands

namespace IsFactor

variable {m : Number} {y : Binary64} {low high : Nat}

theorem within_toBinary64 (h : m.IsFactor low high y) : y.Within (high + 1) :=
  h.within.toBinary64 (Nat.le_trans h.high_le (by decide)) h.toBinary64

theorem isFinite (h : m.IsFactor low high y) : y.isFinite = true :=
  h.within_toBinary64.isFinite

theorem isZero (h : m.IsFactor low high y) : y.isZero = false := by
  have hpos : 0 < y.units.natAbs := Nat.lt_of_lt_of_le (twoTo_pos _) h.units_ge
  cases y with
  | nan => cases h.isFinite
  | infinite s => cases h.isFinite
  | finite s a =>
    rw [Binary64.natAbs_units_finite] at hpos
    exact decide_eq_false (Nat.ne_of_gt hpos)

theorem int_ne_zero {i : Int} (h : (Number.int i).IsFactor low high y) : i ≠ 0 := by
  rintro rfl
  have hfinite : (Binary64.ofInt 0).isFinite = true := by decide +kernel
  have hzero : (Binary64.ofInt 0).isZero = true := by decide +kernel
  have hy := h.toBinary64
  rw [toBinary64_int hfinite] at hy
  cases hzero.symm.trans ((congrArg Binary64.isZero (Except.ok.inj hy)).trans h.isZero)

end IsFactor

namespace Grows

variable {n : Number} {d e : Nat} {result : Except Failure Quantity}

theorem self (n : Number) : n.Grows 0 (.ok n.quantity) :=
  ⟨fun h => .number h, fun h _ => ⟨n, rfl, h⟩⟩

theorem mono (h : n.Grows d result) (hle : d ≤ e) : n.Grows e result := by
  refine ⟨h.isProper, fun hk he => ?_⟩
  obtain ⟨r, hr, hwithin⟩ := h.within hk (by omega)
  exact ⟨r, hr, hwithin.mono (by omega)⟩

theorem bind {f : Quantity → Except Failure Quantity} (h : n.Grows d result)
    (hf : ∀ r : Number, r.Grows e (f r.quantity)) :
    n.Grows (d + e) (result >>= f) := by
  constructor
  · intro hn
    cases h.isProper hn with
    | number hr => exact (hf _).isProper hr
    | overflow hm => exact .overflow hm
  · intro k hk hle
    obtain ⟨r, hr, hwithin⟩ := h.within hk (by omega)
    rw [hr, ok_bind, ← Nat.add_assoc]
    exact (hf r).within hwithin (by omega)

end Grows

section Operations

variable (n : Number) {m : Number} {y : Binary64} {digits low high : Nat}

theorem combines (exact : Int → Int → Int) (rounded : Binary64 → Binary64 → Binary64)
    (hm : m.toBinary64 = .ok y) : Combines exact rounded n m (combine exact rounded n m) := by
  have hmixed : Combines exact rounded n m (n.toBinary64 >>= fun x => m.toBinary64 >>= fun y =>
      .ok (.real (rounded x y))) := by
    rcases n.toBinary64_cases with ⟨x, hx⟩ | hlarge
    · rw [hx, hm]
      exact .rounded hx hm
    · rw [hlarge]
      exact .tooLarge hlarge
  cases n with
  | real x => exact hmixed
  | int i =>
    cases m with
    | real z => exact hmixed
    | int k => exact .exact rfl rfl

theorem divides (hm : m.IsFactor low high y) : Divides n m (n.div m) := by
  have hmixed : Divides n m (n.toBinary64 >>= fun x => m.toBinary64 >>= fun y =>
      if y.isZero then .error (.misuse .zeroDivisor) else .ok (x / y)) := by
    rcases n.toBinary64_cases with ⟨x, hx⟩ | hlarge
    · rw [hx, hm.toBinary64, ok_bind, ok_bind, hm.isZero, if_neg Bool.false_ne_true]
      exact .rounded hx hm.toBinary64
    · rw [hlarge]
      exact .tooLarge hlarge
  cases n with
  | real x => exact hmixed
  | int i =>
    cases m with
    | real z => exact hmixed
    | int k =>
      have hk := hm.int_ne_zero
      rw [div, if_neg hk]
      dsimp only
      split
      · exact .ratio rfl hk ‹_›
      · exact .quotientTooLarge rfl hk (Bool.eq_false_of_not_eq_true ‹_›)

theorem grows_combine {exact : Int → Int → Int} {rounded : Binary64 → Binary64 → Binary64}
    (hm : m.IsFactor low high y)
    (hexact : ∀ {i j : Int} {k : Nat}, m = .int j → i.natAbs ≤ twoTo k →
      (exact i j).natAbs ≤ twoTo (k + digits))
    (hproper : ∀ {x : Binary64}, x.isNaN = false → (rounded x y).isNaN = false)
    (hrounded : ∀ {x : Binary64} {k : Nat}, x.Within (k + 1) → k + digits ≤ 1023 →
      (rounded x y).Within (k + digits)) :
    n.Grows digits ((combine exact rounded n m).map Number.quantity) := by
  have hcombines := n.combines exact rounded hm.toBinary64
  generalize combine exact rounded n m = result at hcombines
  cases hcombines with
  | exact hn hj =>
    refine ⟨fun _ => .number (r := .int _) trivial, fun hk _ => ⟨.int _, rfl, ?_⟩⟩
    rw [hn] at hk
    exact hexact hj hk
  | rounded hx hz =>
    cases hz.symm.trans hm.toBinary64
    refine ⟨fun h => .number (r := .real _) (hproper (h.isNaN hx)), fun hk hle => ?_⟩
    exact ⟨.real _, rfl, hrounded (hk.toBinary64 (by omega) hx) hle⟩
  | tooLarge hlarge =>
    exact ⟨fun _ => .overflow rfl, fun hk hle => absurd hlarge (hk.not_tooLarge (by omega))⟩

theorem grows_mul (hm : m.IsFactor low high y) :
    n.Grows (high + 3) (n.quantity.mul m.quantity) := by
  change n.Grows (high + 3) ((combine (· * ·) (· * ·) n m).map Number.quantity)
  have hy := hm.within_toBinary64
  have hhigh := hm.high_le
  refine n.grows_combine hm ?_ (fun hx => Binary64.isNaN_mul hx hm.isFinite hm.isZero) ?_
  · rintro i j k rfl hi
    calc (i * j).natAbs = i.natAbs * j.natAbs := Int.natAbs_mul i j
      _ ≤ twoTo k * twoTo high := Nat.mul_le_mul hi hm.within
      _ = twoTo (k + high) := (twoTo_add k high).symm
      _ ≤ twoTo (k + (high + 3)) := twoTo_le (by omega)
  · intro x k hx hle
    exact (hx.mul hy (by omega)).mono (by omega)

theorem natAbs_add_le_twoTo {a b : Int} {j k : Nat} (ha : a.natAbs ≤ twoTo j)
    (hb : b.natAbs ≤ twoTo k) : (a + b).natAbs ≤ twoTo (j + (k + 3)) := by
  have hj : twoTo j ≤ twoTo (j + k) := twoTo_le (Nat.le_add_right j k)
  have hk : twoTo k ≤ twoTo (j + k) := twoTo_le (Nat.le_add_left k j)
  have hsum := Int.natAbs_add_le a b
  calc (a + b).natAbs ≤ 2 * twoTo (j + k) := by omega
    _ = twoTo (j + k + 1) := (twoTo_succ _).symm
    _ ≤ twoTo (j + (k + 3)) := twoTo_le (by omega)

theorem grows_add (hm : m.IsFactor low high y) :
    n.Grows (high + 3) (n.quantity.add m.quantity) := by
  change n.Grows (high + 3) ((combine (· + ·) (· + ·) n m).map Number.quantity)
  have hy := hm.within_toBinary64
  have hhigh := hm.high_le
  refine n.grows_combine hm ?_ (fun hx => Binary64.isNaN_add hx hm.isFinite) ?_
  · rintro i j k rfl hi
    exact natAbs_add_le_twoTo hi hm.within
  · intro x k hx hle
    exact ((hx.mono (show _ ≤ k + high + 1 by omega)).add (hy.mono (by omega)) (by omega)).mono
      (by omega)

theorem grows_sub (hm : m.IsFactor low high y) :
    n.Grows (high + 3) (n.quantity.sub m.quantity) := by
  change n.Grows (high + 3) ((combine (· - ·) (· - ·) n m).map Number.quantity)
  have hy := hm.within_toBinary64
  have hhigh := hm.high_le
  refine n.grows_combine hm ?_ (fun hx => Binary64.isNaN_sub hx hm.isFinite) ?_
  · rintro i j k rfl hi
    exact natAbs_add_le_twoTo hi (by rw [Int.natAbs_neg]; exact hm.within)
  · intro x k hx hle
    exact ((hx.mono (show _ ≤ k + high + 1 by omega)).sub (hy.mono (by omega)) (by omega)).mono
      (by omega)

theorem grows_div (hm : m.IsFactor low high y) :
    n.Grows (low + 2) ((n.quantity.div m.quantity).map Quantity.ofReal) := by
  change n.Grows (low + 2) ((n.div m).map Quantity.ofReal)
  have hdivides := n.divides hm
  generalize n.div m = result at hdivides
  cases hdivides with
  | ratio hn hk hfinite =>
    refine ⟨fun _ => .number (r := .real _) (Binary64.isNaN_of_isFinite hfinite), ?_⟩
    rintro k hwithin hle
    rw [hn] at hwithin
    exact ⟨.real _, rfl, (hwithin.ratio hk (by omega) _).mono (by omega)⟩
  | quotientTooLarge hn hk hlarge =>
    refine ⟨fun _ => .overflow rfl, ?_⟩
    rintro k hwithin hle
    rw [hn] at hwithin
    cases hlarge.symm.trans (hwithin.ratio hk (by omega) _).isFinite
  | rounded hx hz =>
    cases hz.symm.trans hm.toBinary64
    refine ⟨fun h => .number (r := .real _)
      (Binary64.isNaN_div (h.isNaN hx) hm.isFinite hm.isZero), fun hk hle => ?_⟩
    have hquotient := (hk.toBinary64 (by omega) hx).div hm.isFinite hm.units_ge hm.low_le
      (by omega)
    exact ⟨.real _, rfl, hquotient.mono (by omega)⟩
  | tooLarge hlarge =>
    exact ⟨fun _ => .overflow rfl, fun hk hle => absurd hlarge (hk.not_tooLarge (by omega))⟩

end Operations

end Number

end DeskCalculator
