import DeskCalculator.Proofs.Expression.Pieces

namespace DeskCalculator

open Text

inductive Fault.LocatedIn (text : List Char) : Fault → Prop where
  | unexpectedChar {position c} : text[position]? = some c →
      LocatedIn text (.unexpectedChar position c)
  | numeral {front run back x} : text = front ++ run ++ back → IsNumeral run x →
      x.isFinite = false → (∀ c ∈ back.head?, isNumeralChar c = false) →
      LocatedIn text (.overflow (.numeral front.length run.length))

def nameAt (names : List (List Char × Lexeme)) (position : Nat) (c : Char) (cs : List Char) :
    Except Fault (Option Lexeme × Nat) :=
  match names.find? fun (name, _) => name.isPrefixOf (c :: cs) with
  | some (name, lexeme) => .ok (some lexeme, name.length - 1)
  | none => .error (.unexpectedChar position c)

section Head

variable {c : Char} {cs : List Char} {position : Nat}

theorem letter_facts (h : c.isAlpha = true) : isBlank c = false ∧ isNumeralChar c = false ∧
    c ∉ ['π', '+', '-', '*', '/', '^', '(', ')', '!'] := by
  have hcode : 65 ≤ c.toNat ∧ c.toNat ≤ 90 ∨ 97 ≤ c.toNat ∧ c.toNat ≤ 122 := by
    delta Char.isAlpha Char.isUpper Char.isLower at h
    simpa [UInt32.le_iff_toNat_le] using h
  refine ⟨?_, ?_, fun hmem => ?_⟩
  · simp only [isBlank, Bool.or_eq_false_iff, Bool.and_eq_false_iff, decide_eq_false_iff_not]
    omega
  · have hpoint : c ≠ '.' := by
      rintro rfl
      exact absurd h (by decide)
    have hdigit : isDigit c = false := by
      simp only [isDigit, Bool.and_eq_false_iff, decide_eq_false_iff_not]
      refine .inr fun hle => ?_
      have hlow : c.toNat ≤ 57 := hle
      omega
    simp [isNumeralChar, hpoint, hdigit]
  · simp only [List.mem_cons, List.not_mem_nil, or_false] at hmem
    rcases hmem with rfl | rfl | rfl | rfl | rfl | rfl | rfl | rfl | rfl <;>
      exact absurd h (by decide)

theorem lexemeAt_letter (h : c.isAlpha = true) :
    lexemeAt position c cs = nameAt spelledLexemes position c cs := by
  obtain ⟨hblank, hnumeral, hsymbol⟩ := letter_facts h
  simp only [List.mem_cons, List.not_mem_nil, or_false, not_or] at hsymbol
  obtain ⟨hpi, hplus, hminus, htimes, hover, hpower, hopen, hclose, hmark⟩ := hsymbol
  have hoperator : operatorSymbols.contains c = false := by
    simp [operatorSymbols, hplus, hminus, htimes, hover, hpower]
  simp only [lexemeAt, hblank, hnumeral, hoperator, if_neg hpi, if_neg hopen, if_neg hclose,
    if_neg hmark, Bool.false_eq_true, if_false]
  rfl

theorem takeWhile_run {run rest : List Char} (hrun : ∀ c ∈ run, isNumeralChar c = true)
    (hrest : ∀ c ∈ rest.head?, isNumeralChar c = false) :
    (run ++ rest).takeWhile isNumeralChar = run := by
  rw [List.takeWhile_append_of_pos hrun]
  cases rest with
  | nil => simp
  | cons c rest => simp [hrest c rfl]

theorem lexemeAt_run {run rest : List Char} (hrun : ∀ c ∈ run, isNumeralChar c = true)
    (hrest : ∀ c ∈ rest.head?, isNumeralChar c = false) (h : run ++ rest = c :: cs)
    (hne : run ≠ []) : lexemeAt position c cs =
      (numeralLexeme position run).map fun lexeme => (some lexeme, run.length - 1) := by
  obtain ⟨d, ds, rfl⟩ := List.exists_cons_of_ne_nil hne
  rw [List.cons_append] at h
  obtain ⟨rfl, rfl⟩ := List.cons.inj h
  have hnumeral : isNumeralChar d = true := hrun d (by simp)
  have hblank : isBlank d = false := by
    by_contra hb
    rw [isNumeralChar_blank (by simpa using hb)] at hnumeral
    cases hnumeral
  have htake := takeWhile_run (fun c hc => hrun c (List.mem_cons_of_mem _ hc)) hrest
  simp only [lexemeAt, hblank, hnumeral, htake, if_true, Bool.false_eq_true, if_false]

end Head

theorem Piece.lexemeAt_eq (p : Piece) {c : Char} {cs rest : List Char} (hstop : p.Stops rest)
    (h : p.chars ++ rest = c :: cs) (position : Nat) :
    lexemeAt position c cs = .ok (p.lexeme?, p.chars.length - 1) := by
  obtain ⟨chars, lexeme?, hspells⟩ := p
  have hname {name : List Char} {lexeme : Lexeme} (hmem : (name, lexeme) ∈ spelledLexemes)
      (h : name ++ rest = c :: cs) :
      lexemeAt position c cs = .ok (some lexeme, name.length - 1) := by
    obtain ⟨d, ds, rfl, hletter⟩ : ∃ d ds, name = d :: ds ∧ d.isAlpha = true :=
      letter_of_mem_spelledLexemes _ hmem
    have hstarts : d :: ds <+: c :: cs := ⟨rest, h⟩
    obtain ⟨rfl, -⟩ := List.cons.inj h
    rw [lexemeAt_letter hletter, nameAt, find_spelled (.refl _) hmem hstarts]
  cases hspells with
  | blank hblank =>
    obtain ⟨rfl, -⟩ := List.cons.inj h
    exact if_pos hblank
  | number hnumeral hfinite =>
    rw [lexemeAt_run hnumeral.chars (hstop rfl) h hnumeral.ne_nil, hnumeral.numeralLexeme_eq,
      if_pos hfinite]
    rfl
  | function hmem => exact hname (List.mem_append_left _ (List.mem_map_of_mem hmem)) h
  | constant hmem =>
    simp only [List.mem_cons, List.not_mem_nil, or_false] at hmem
    rcases hmem with rfl | rfl
    · exact hname (by simp [spelledLexemes]) h
    · exact hname (by simp [spelledLexemes]) h
  | operator hmem =>
    obtain ⟨rfl, -⟩ := List.cons.inj h
    simp only [operatorSymbols, List.mem_cons, List.not_mem_nil, or_false] at hmem
    rcases hmem with rfl | rfl | rfl | rfl | rfl <;> rfl
  | greekPi | openParen | closeParen | factorial =>
    obtain ⟨rfl, -⟩ := List.cons.inj h
    rfl

inductive Finds (front text : List Char) : Except Fault (Option Lexeme × Nat) → Prop where
  | piece {p : Piece} {rest} : text = p.chars ++ rest → p.Stops rest →
      Finds front text (.ok (p.lexeme?, p.chars.length - 1))
  | fault {f : Fault} : f.LocatedIn (front ++ text) → Finds front text (.error f)

theorem Finds.one {front cs : List Char} {c : Char} {lexeme? : Option Lexeme}
    (h : Spells [c] lexeme?) (hkind : lexeme?.map Lexeme.kind ≠ some .number) :
    Finds front (c :: cs) (.ok (lexeme?, 0)) :=
  .piece (p := ⟨[c], lexeme?, h⟩) rfl fun hx => absurd hx hkind

theorem finds_run (front : List Char) {c : Char} (hc : isNumeralChar c = true) (cs : List Char) :
    Finds front (c :: cs) (lexemeAt front.length c cs) := by
  have hsplit : (c :: cs).takeWhile isNumeralChar ++ (c :: cs).dropWhile isNumeralChar = c :: cs :=
    List.takeWhile_append_dropWhile
  have hrun : ∀ d ∈ (c :: cs).takeWhile isNumeralChar, isNumeralChar d = true :=
    fun d hd => List.mem_takeWhile_imp hd
  have hne : (c :: cs).takeWhile isNumeralChar ≠ [] := by simp [hc]
  have hrest : ∀ d ∈ ((c :: cs).dropWhile isNumeralChar).head?, isNumeralChar d = false := by
    intro d hd
    have hnot := List.head?_dropWhile_not isNumeralChar (c :: cs)
    rw [Option.mem_def.mp hd] at hnot
    exact hnot
  generalize (c :: cs).takeWhile isNumeralChar = run at hsplit hrun hne
  generalize (c :: cs).dropWhile isNumeralChar = rest at hsplit hrest
  rw [lexemeAt_run hrun hrest hsplit hne, ← hsplit]
  rcases numeral_or_refused hne hrun front.length with ⟨x, hx⟩ | ⟨k, hk, herror⟩
  · rw [hx.numeralLexeme_eq]
    by_cases hfinite : x.isFinite = true
    · rw [if_pos hfinite]
      exact .piece (p := ⟨run, _, .number hx hfinite⟩) rfl fun _ => hrest
    · rw [if_neg hfinite]
      exact .fault (.numeral (List.append_assoc _ _ _).symm hx (by simpa using hfinite) hrest)
  · rw [herror]
    obtain ⟨hlt, -⟩ := List.getElem?_eq_some_iff.mp hk
    refine .fault (.unexpectedChar ?_)
    rw [List.getElem?_append_right (by omega), Nat.add_sub_cancel_left,
      List.getElem?_append_left hlt, hk]

theorem finds_lexemeAt (front : List Char) (c : Char) (cs : List Char) :
    Finds front (c :: cs) (lexemeAt front.length c cs) := by
  by_cases hnumeral : isNumeralChar c = true
  · exact finds_run front hnumeral cs
  unfold lexemeAt
  rw [if_neg hnumeral]
  split
  · rename_i hblank
    exact .one (.blank hblank) nofun
  split
  · rename_i hpi
    subst hpi
    exact .one .greekPi nofun
  split
  · rename_i hoperator
    exact .one (.operator (by simpa using hoperator)) nofun
  split
  · rename_i hopen
    subst hopen
    exact .one .openParen nofun
  split
  · rename_i hclose
    subst hclose
    exact .one .closeParen nofun
  split
  · rename_i hmark
    subst hmark
    exact .one .factorial nofun
  split
  · rename_i name lexeme hfind
    have hmem := List.mem_of_find?_eq_some hfind
    have hfits := List.find?_some hfind
    obtain ⟨rest, hrest⟩ : name <+: c :: cs := List.isPrefixOf_iff_prefix.mp hfits
    rw [← hrest]
    exact .piece (p := ⟨name, _, spells_of_mem_spelledLexemes _ hmem⟩) rfl fun hnumber =>
      absurd (Option.some.inj hnumber) (kind_of_mem_spelledLexemes _ hmem)
  · exact .fault (.unexpectedChar (by simp))

end DeskCalculator
