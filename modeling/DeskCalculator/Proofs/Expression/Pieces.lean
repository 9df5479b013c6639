import DeskCalculator.Proofs.Expression.Placement
import DeskCalculator.Proofs.Expression.Scanning
import Mathlib.Data.List.Nodup

namespace DeskCalculator

open Text

structure IsNumeral (run : List Char) (x : Binary64) : Prop where
  chars : ∀ c ∈ run, isNumeralChar c = true
  digit : ∃ c ∈ run, isDigit c = true
  points : run.count '.' ≤ 1
  value : Binary64.ofText (String.ofList run) = .ok x

inductive Spells : List Char → Option Lexeme → Prop where
  | blank {c} : isBlank c = true → Spells [c] none
  | number {run x} : IsNumeral run x → x.isFinite = true → Spells run (some (.number x))
  | function {name} : name ∈ functionNames → Spells name.toList (some (.function name))
  | constant {name} : name ∈ ["pi", "e"] → Spells name.toList (some (.constant name))
  | greekPi : Spells ['π'] (some (.constant "pi"))
  | operator {c} : c ∈ operatorSymbols → Spells [c] (some (.operator (String.singleton c)))
  | openParen : Spells ['('] (some .openParen)
  | closeParen : Spells [')'] (some .closeParen)
  | factorial : Spells ['!'] (some .factorial)

structure Piece where
  chars : List Char
  lexeme? : Option Lexeme
  spells : Spells chars lexeme?

def Piece.Stops (p : Piece) (rest : List Char) : Prop :=
  p.lexeme?.map Lexeme.kind = some .number → ∀ c ∈ rest.head?, isNumeralChar c = false

inductive Divides : List Piece → List Char → Prop where
  | nil : Divides [] []
  | cons {p ps rest} : p.Stops rest → Divides ps rest → Divides (p :: ps) (p.chars ++ rest)

def spelling (pieces : List Piece) : List Char :=
  pieces.flatMap Piece.chars

def tokensAt (position : Nat) : List Piece → List Token
  | [] => []
  | p :: ps => (p.lexeme?.map fun lexeme => ⟨lexeme, position⟩).toList ++
      tokensAt (position + p.chars.length) ps

section Points

variable {run whole : List Char}

theorem secondPoint?_of_not_mem (h : '.' ∉ run) : secondPoint? run = none := by
  have hall : ∀ c ∈ run, (c != '.') = true := fun c hc => by
    simpa using ne_of_mem_of_not_mem hc h
  rw [secondPoint?, List.takeWhile_eq_self_iff.mpr hall]
  simp

theorem secondPoint?_point (h : '.' ∉ whole) (fraction : List Char) :
    secondPoint? (whole ++ '.' :: fraction) =
      if '.' ∈ fraction then
        some (whole.length + 1 + (fraction.takeWhile (· != '.')).length)
      else none := by
  have hall : ∀ c ∈ whole, (c != '.') = true := fun c hc => by
    simpa using ne_of_mem_of_not_mem hc h
  rw [secondPoint?, List.takeWhile_append_of_pos hall]
  simp

theorem secondPoint?_eq_none_iff : secondPoint? run = none ↔ run.count '.' ≤ 1 := by
  by_cases hmem : '.' ∈ run
  · obtain ⟨whole, fraction, rfl, hwhole⟩ := List.eq_append_cons_of_mem hmem
    rw [secondPoint?_point hwhole, List.count_append, List.count_cons_self,
      List.count_eq_zero_of_not_mem hwhole]
    by_cases hsecond : '.' ∈ fraction
    · have hpos := List.count_pos_iff.mpr hsecond
      rw [if_pos hsecond]
      simp only [reduceCtorEq, false_iff]
      omega
    · rw [if_neg hsecond, List.count_eq_zero_of_not_mem hsecond]
      simp
  · rw [secondPoint?_of_not_mem hmem, List.count_eq_zero_of_not_mem hmem]
    simp

theorem getElem?_secondPoint? {k : Nat} (h : secondPoint? run = some k) : run[k]? = some '.' := by
  by_cases hmem : '.' ∈ run
  · obtain ⟨whole, rest, rfl, hwhole⟩ := List.eq_append_cons_of_mem hmem
    rw [secondPoint?_point hwhole] at h
    split at h
    · rename_i hsecond
      obtain ⟨fraction, back, rfl, hfraction⟩ := List.eq_append_cons_of_mem hsecond
      have hall : ∀ c ∈ fraction, (c != '.') = true := fun c hc => by
        simpa using ne_of_mem_of_not_mem hc hfraction
      rw [List.takeWhile_append_of_pos hall] at h
      obtain rfl := Option.some.inj h
      simp [Nat.add_assoc, Nat.add_comm 1]
    · cases h
  · rw [secondPoint?_of_not_mem hmem] at h
    cases h

end Points

namespace IsNumeral

variable {run : List Char} {x : Binary64}

theorem ne_nil (h : IsNumeral run x) : run ≠ [] := by
  obtain ⟨c, hc, -⟩ := h.digit
  exact List.ne_nil_of_mem hc

theorem ne_point (h : IsNumeral run x) : run ≠ ['.'] := by
  rintro rfl
  obtain ⟨c, hc, hdigit⟩ := h.digit
  rw [List.mem_singleton.mp hc] at hdigit
  exact absurd hdigit (by decide)

theorem numeralLexeme_eq (h : IsNumeral run x) (position : Nat) : numeralLexeme position run =
    if x.isFinite then .ok (.number x)
    else .error (.overflow (.numeral position run.length)) := by
  have hsecond := secondPoint?_eq_none_iff.mpr h.points
  have hplain := plain_of_secondPoint? h.ne_nil h.chars hsecond h.ne_point
  have hread : Binary64.ofText (String.ofList run) = .ok (.ofPlain run) :=
    Binary64.ofText_plain hplain false
  obtain rfl : x = .ofPlain run := Except.ok.inj (h.value.symm.trans hread)
  rw [numeralLexeme, hsecond]
  exact if_neg h.ne_point

theorem of_plain (hchars : ∀ c ∈ run, isNumeralChar c = true)
    (hsecond : DeskCalculator.secondPoint? run = none) (h : Numeral.Plain run) :
    IsNumeral run (.ofPlain run) where
  chars := hchars
  digit := by
    cases h with
    | whole hd hne =>
      obtain ⟨c, ds, rfl⟩ := List.exists_cons_of_ne_nil hne
      exact ⟨c, by simp, hd c (by simp)⟩
    | @point whole fraction hw hf hne =>
      obtain ⟨c, hc⟩ := List.exists_mem_of_ne_nil _ hne
      rcases List.mem_append.mp hc with hc | hc
      · exact ⟨c, by simp [hc], hw c hc⟩
      · exact ⟨c, by simp [hc], hf c hc⟩
  points := secondPoint?_eq_none_iff.mp hsecond
  value := Binary64.ofText_plain h false

end IsNumeral

theorem numeral_or_refused {run : List Char} (hne : run ≠ [])
    (hchars : ∀ c ∈ run, isNumeralChar c = true) (position : Nat) :
    (∃ x, IsNumeral run x) ∨ ∃ k : Nat, run[k]? = some '.' ∧
      numeralLexeme position run = .error (.unexpectedChar (position + k) '.') := by
  cases hsecond : secondPoint? run with
  | some k =>
    refine .inr ⟨k, getElem?_secondPoint? hsecond, ?_⟩
    rw [numeralLexeme, hsecond]
  | none =>
    by_cases hpoint : run = ['.']
    · refine .inr ⟨0, by rw [hpoint]; rfl, ?_⟩
      rw [numeralLexeme, hsecond]
      exact if_pos hpoint
    · exact .inl ⟨_, .of_plain hchars hsecond (plain_of_secondPoint? hne hchars hsecond hpoint)⟩

section Names

variable {c : Char} {cs : List Char}

theorem letter_of_mem_spelledLexemes :
    ∀ p ∈ spelledLexemes, ∃ c cs, p.1 = c :: cs ∧ c.isAlpha = true := by
  simp only [spelledLexemes, functionNames, List.map_cons, List.map_nil, List.cons_append,
    List.nil_append, List.forall_mem_cons]
  refine ⟨⟨_, _, rfl, rfl⟩, ⟨_, _, rfl, rfl⟩, ⟨_, _, rfl, rfl⟩, ⟨_, _, rfl, rfl⟩,
    ⟨_, _, rfl, rfl⟩, ⟨_, _, rfl, rfl⟩, ⟨_, _, rfl, rfl⟩, ⟨_, _, rfl, rfl⟩, by simp⟩

theorem spells_of_mem_spelledLexemes : ∀ p ∈ spelledLexemes, Spells p.1 (some p.2) := by
  intro p hp
  rcases List.mem_append.mp hp with hp | hp
  · obtain ⟨name, hname, rfl⟩ := List.mem_map.mp hp
    exact .function hname
  · simp only [List.mem_cons, List.not_mem_nil, or_false] at hp
    rcases hp with rfl | rfl
    · exact .constant (by simp)
    · exact .constant (by simp)

theorem kind_of_mem_spelledLexemes : ∀ p ∈ spelledLexemes, p.2.kind ≠ .number := by
  decide

theorem eq_of_prefix_spelled {p q : List Char × Lexeme} (hp : p ∈ spelledLexemes)
    (hq : q ∈ spelledLexemes) (hpc : p.1 <+: cs) (hqc : q.1 <+: cs) : p = q := by
  have hfree : ∀ n ∈ spelledLexemes.map (·.1), ∀ m ∈ spelledLexemes.map (·.1),
      n.isPrefixOf m = true → n = m := by decide
  have hnodup : (spelledLexemes.map (·.1)).Nodup := by decide
  have hname : p.1 = q.1 := by
    have hpm := List.mem_map_of_mem (f := (·.1)) hp
    have hqm := List.mem_map_of_mem (f := (·.1)) hq
    rcases List.prefix_or_prefix_of_prefix hpc hqc with h | h
    · exact hfree _ hpm _ hqm (List.isPrefixOf_iff_prefix.mpr h)
    · exact (hfree _ hqm _ hpm (List.isPrefixOf_iff_prefix.mpr h)).symm
  exact List.inj_on_of_nodup_map hnodup hp hq hname

theorem find_spelled {names : List (List Char × Lexeme)} (hnames : names.Perm spelledLexemes)
    {p : List Char × Lexeme} (hp : p ∈ spelledLexemes) (hstarts : p.1 <+: cs) :
    (names.find? fun (name, _) => name.isPrefixOf cs) = some p := by
  cases hfind : names.find? fun (name, _) => name.isPrefixOf cs with
  | some q =>
    have hq := hnames.mem_iff.mp (List.mem_of_find?_eq_some hfind)
    have hfits := List.find?_some hfind
    have hqc : q.1 <+: cs := List.isPrefixOf_iff_prefix.mp hfits
    rw [eq_of_prefix_spelled hq hp hqc hstarts]
  | none =>
    have hnot := List.find?_eq_none.mp hfind p (hnames.mem_iff.mpr hp)
    exact absurd (List.isPrefixOf_iff_prefix.mpr hstarts) hnot

end Names

end DeskCalculator
