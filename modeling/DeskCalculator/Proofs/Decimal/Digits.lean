import DeskCalculator.Decimal.Notation
import DeskCalculator.Proofs.Binary64.Range
import DeskCalculator.Text.Digit
import Mathlib.Data.List.DropRight

namespace DeskCalculator

namespace Text

def AllDigits (cs : List Char) : Prop :=
  ∀ c ∈ cs, isDigit c = true

theorem allDigits_nil : AllDigits [] := nofun

theorem allDigits_cons {c : Char} {cs : List Char} :
    AllDigits (c :: cs) ↔ isDigit c = true ∧ AllDigits cs := by
  simp [AllDigits]

theorem allDigits_append {cs ds : List Char} :
    AllDigits (cs ++ ds) ↔ AllDigits cs ∧ AllDigits ds := by
  simp [AllDigits, or_imp, forall_and]

theorem allDigits_zeros (n : Nat) : AllDigits (List.replicate n '0') := by
  intro c hc
  rw [List.eq_of_mem_replicate hc]
  rfl

theorem AllDigits.of_prefix {cs ds : List Char} (h : AllDigits ds) (hp : cs <+: ds) :
    AllDigits cs :=
  fun c hc => h c (hp.subset hc)

theorem AllDigits.of_suffix {cs ds : List Char} (h : AllDigits ds) (hs : cs <:+ ds) :
    AllDigits cs :=
  fun c hc => h c (hs.subset hc)

theorem dropWhile_eq_self {p : Char → Bool} {cs : List Char} (h : ∀ c ∈ cs, p c = false) :
    cs.dropWhile p = cs := by
  cases cs with
  | nil => rfl
  | cons c cs => exact List.dropWhile_cons_of_neg (by simp [h c (by simp)])

theorem AllDigits.ne_point {cs : List Char} (h : AllDigits cs) : ∀ c ∈ cs, c ≠ '.' := by
  rintro c hc rfl
  exact absurd (h _ hc) (by decide)

theorem takeWhile_digits_point {ds : List Char} (h : AllDigits ds) (rest : List Char) :
    (ds ++ '.' :: rest).takeWhile isDigit = ds := by
  rw [List.takeWhile_append_of_pos h, List.takeWhile_cons_of_neg (by decide), List.append_nil]

theorem dropWhile_digits_point {ds : List Char} (h : AllDigits ds) (rest : List Char) :
    (ds ++ '.' :: rest).dropWhile isDigit = '.' :: rest := by
  rw [List.dropWhile_append_of_pos h, List.dropWhile_cons_of_neg (by decide)]

end Text

open Text

namespace Decimal

theorem allDigits_writeDigits (n : Nat) : AllDigits (writeDigits n) := by
  intro c hc
  have h : c.isDigit = true := Nat.isDigit_of_mem_toDigits (by decide) (by decide) hc
  simpa [isDigit, Char.isDigit, Char.le_def] using h

theorem head_writeDigits {n : Nat} (h : n ≠ 0) :
    ∃ c cs, writeDigits n = c :: cs ∧ c ≠ '0' := by
  induction n using Nat.strongRecOn with
  | ind n ih =>
    rw [writeDigits, Nat.toDigits_eq_if (by decide)]
    split
    · rename_i hlt
      have hchar : ∀ m < 10, m ≠ 0 → m.digitChar ≠ '0' := by decide
      exact ⟨n.digitChar, [], rfl, hchar n hlt h⟩
    · obtain ⟨c, cs, heq, hc⟩ := ih (n / 10) (by omega) (by omega)
      refine ⟨c, cs ++ [(n % 10).digitChar], ?_, hc⟩
      rw [show Nat.toDigits 10 (n / 10) = c :: cs from heq]
      rfl

inductive Whole : List Char → Prop where
  | zero : Whole ['0']
  | digits {c cs} : c ≠ '0' → AllDigits (c :: cs) → Whole (c :: cs)

namespace Whole

variable {cs ds : List Char}

theorem allDigits (h : Whole cs) : AllDigits cs := by
  cases h with
  | zero => exact allDigits_zeros 1
  | digits _ hd => exact hd

theorem ne_nil (h : Whole cs) : cs ≠ [] := by
  cases h <;> simp

theorem of_prefix (h : Whole cs) (hp : ds <+: cs) (hne : ds ≠ []) : Whole ds := by
  obtain ⟨d, ds, rfl⟩ := List.exists_cons_of_ne_nil hne
  cases h with
  | zero =>
    obtain ⟨rfl, hnil⟩ := List.cons_prefix_cons.mp hp
    rw [List.prefix_nil.mp hnil]
    exact .zero
  | digits hc hd =>
    obtain ⟨rfl, -⟩ := List.cons_prefix_cons.mp hp
    exact .digits hc (hd.of_prefix hp)

theorem append (h : Whole cs) (hne : cs ≠ ['0']) (hd : AllDigits ds) : Whole (cs ++ ds) := by
  cases h with
  | zero => exact absurd rfl hne
  | digits hc hcs => exact .digits hc (allDigits_append.mpr ⟨hcs, hd⟩)

theorem writeDigits (n : Nat) : Whole (writeDigits n) := by
  have hd := allDigits_writeDigits n
  by_cases hn : n = 0
  · rw [hn]
    exact .zero
  · obtain ⟨c, cs, heq, hc⟩ := head_writeDigits hn
    rw [heq] at hd ⊢
    exact .digits hc hd

theorem writeDigits_ne_zero {n : Nat} (h : n ≠ 0) : Decimal.writeDigits n ≠ ['0'] := by
  obtain ⟨c, cs, heq, hc⟩ := head_writeDigits h
  rw [heq]
  rintro ⟨⟩
  exact hc rfl

end Whole

structure Trimmed (cs : List Char) : Prop where
  allDigits : AllDigits cs
  last_ne : cs.getLast? ≠ some '0'

theorem trimmed_nil : Trimmed [] :=
  ⟨allDigits_nil, nofun⟩

theorem trimmed_rdropWhile {cs : List Char} (h : AllDigits cs) :
    Trimmed (cs.rdropWhile (· == '0')) where
  allDigits := h.of_prefix (List.rdropWhile_prefix _ _)
  last_ne hlast := by
    have hne : cs.rdropWhile (· == '0') ≠ [] := fun hnil => by simp [hnil] at hlast
    rw [List.getLast?_eq_some_getLast hne, Option.some_inj] at hlast
    exact List.rdropWhile_last_not _ _ hne (by rw [hlast]; rfl)

def pointed (fraction : List Char) : List Char :=
  if fraction = [] then [] else '.' :: fraction

theorem withPoint_eq {ds : List Char} (h : Whole ds) (places : Nat) :
    ∃ whole fraction, Whole whole ∧ AllDigits fraction ∧ fraction.length = places ∧
      withPoint ds places = whole ++ '.' :: fraction := by
  rcases Nat.lt_or_ge places ds.length with hlt | hge
  · have hpad : places + 1 - ds.length = 0 := by omega
    have hne : ds.take (ds.length - places) ≠ [] := by
      simp only [ne_eq, List.take_eq_nil_iff, not_or]
      exact ⟨by omega, h.ne_nil⟩
    refine ⟨_, _, h.of_prefix (List.take_prefix _ _) hne,
      h.allDigits.of_suffix (List.drop_suffix (ds.length - places) _), ?_, ?_⟩
    · simp only [List.length_drop]
      omega
    · simp [withPoint, hpad]
  · have hpad : places + 1 - ds.length = (places - ds.length) + 1 := by omega
    refine ⟨['0'], List.replicate (places - ds.length) '0' ++ ds, .zero,
      allDigits_append.mpr ⟨allDigits_zeros _, h.allDigits⟩, ?_, ?_⟩
    · simp only [List.length_append, List.length_replicate]
      omega
    · have hone : places - ds.length + ds.length + 1 - places = 1 := by omega
      simp [withPoint, hpad, hone, List.replicate_succ]

theorem trim_point {whole fraction : List Char} (hw : AllDigits whole)
    (hf : AllDigits fraction) :
    trim (whole ++ '.' :: fraction) = whole ++ pointed (fraction.rdropWhile (· == '0')) := by
  have hwhole : whole.reverse.dropWhile (· == '.') = whole.reverse :=
    dropWhile_eq_self fun c hc => by simpa using hw.ne_point c (List.mem_reverse.mp hc)
  have hsplit : (whole ++ '.' :: fraction).reverse =
      fraction.reverse ++ '.' :: whole.reverse := by simp
  have hcut : AllDigits (fraction.reverse.dropWhile (· == '0')) := fun c hc =>
    hf c (List.mem_reverse.mp ((List.dropWhile_suffix _).subset hc))
  rw [trim, if_pos (by simp), hsplit, List.dropWhile_append, List.rdropWhile]
  cases hz : fraction.reverse.dropWhile (· == '0') with
  | nil => simp [pointed, hwhole]
  | cons z zs =>
    rw [hz] at hcut
    have hz' : (z == '.') = false := by simpa using hcut.ne_point z (by simp)
    simp [pointed, hz']

end Decimal

end DeskCalculator
