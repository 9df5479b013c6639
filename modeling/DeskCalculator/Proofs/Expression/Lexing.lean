import DeskCalculator.Proofs.Expression.FirstPiece

namespace DeskCalculator

open Text

theorem Spells.ne_nil {cs : List Char} {lexeme? : Option Lexeme} (h : Spells cs lexeme?) :
    cs ≠ [] := by
  cases h with
  | number hnumeral _ => exact hnumeral.ne_nil
  | @function name hmem =>
    obtain ⟨c, ds, heq, -⟩ : ∃ c ds, name.toList = c :: ds ∧ c.isAlpha = true :=
      letter_of_mem_spelledLexemes _ (List.mem_append_left _ (List.mem_map_of_mem hmem))
    rw [heq]
    exact List.cons_ne_nil c ds
  | constant hmem =>
    simp only [List.mem_cons, List.not_mem_nil, or_false] at hmem
    rcases hmem with rfl | rfl <;> decide
  | _ => exact List.cons_ne_nil _ _

namespace Piece

variable {p q : Piece} {rest other : List Char}

theorem exists_chars (p : Piece) : ∃ c cs, p.chars = c :: cs :=
  List.exists_cons_of_ne_nil p.spells.ne_nil

theorem length_pos (p : Piece) : 0 < p.chars.length :=
  List.length_pos_of_ne_nil p.spells.ne_nil

theorem append_ne_nil (p : Piece) (rest : List Char) : p.chars ++ rest ≠ [] :=
  List.append_ne_nil_of_left_ne_nil p.spells.ne_nil rest

theorem eq_of_append (hp : p.Stops rest) (hq : q.Stops other)
    (h : p.chars ++ rest = q.chars ++ other) : p = q ∧ rest = other := by
  obtain ⟨c, cs, hcs⟩ := List.exists_cons_of_ne_nil (p.append_ne_nil rest)
  have hfound := p.lexemeAt_eq hp hcs 0
  rw [q.lexemeAt_eq hq (h.symm.trans hcs) 0] at hfound
  obtain ⟨hlexeme, hlength⟩ := Prod.mk.inj (Except.ok.inj hfound)
  have hppos := p.length_pos
  have hqpos := q.length_pos
  obtain ⟨hchars, hrest⟩ := List.append_inj h (by omega)
  obtain ⟨pchars, plexeme?, _⟩ := p
  obtain ⟨qchars, qlexeme?, _⟩ := q
  dsimp only at hchars hlexeme
  subst hchars hlexeme
  exact ⟨rfl, hrest⟩

end Piece

theorem spelling_append (front back : List Piece) :
    spelling (front ++ back) = spelling front ++ spelling back :=
  List.flatMap_append

namespace Divides

variable {ps qs : List Piece} {text : List Char}

theorem cons_inv {p : Piece} (h : Divides (p :: ps) text) :
    ∃ rest, text = p.chars ++ rest ∧ p.Stops rest ∧ Divides ps rest := by
  cases h with
  | cons hstop hrest => exact ⟨_, rfl, hstop, hrest⟩

theorem unique (hp : Divides ps text) (hq : Divides qs text) : ps = qs := by
  induction hp generalizing qs with
  | nil =>
    generalize htext : ([] : List Char) = text at hq
    cases hq with
    | nil => rfl
    | @cons q qs rest _ _ => exact absurd htext.symm (q.append_ne_nil rest)
  | @cons p ps rest hstop _ ih =>
    generalize htext : p.chars ++ rest = text at hq
    cases hq with
    | nil => exact absurd htext (p.append_ne_nil rest)
    | cons hqstop hqdivides =>
      obtain ⟨rfl, rfl⟩ := Piece.eq_of_append hstop hqstop htext
      rw [ih hqdivides]

theorem spelling_eq (h : Divides ps text) : spelling ps = text := by
  induction h with
  | nil => rfl
  | cons _ _ ih => rw [spelling, List.flatMap_cons, ← spelling, ih]

theorem exists_blanks {bs : List Char} (hb : AllBlank bs) (h : Divides ps text) :
    ∃ blanks, Divides (blanks ++ ps) (bs ++ text) ∧ blanks.filterMap Piece.lexeme? = [] := by
  induction bs with
  | nil => exact ⟨[], h, rfl⟩
  | cons b bs ih =>
    obtain ⟨blanks, hdivides, hlexemes⟩ := ih fun c hc => hb c (List.mem_cons_of_mem _ hc)
    exact ⟨⟨[b], none, .blank (hb b (by simp))⟩ :: blanks, .cons nofun hdivides, hlexemes⟩

end Divides

theorem Piece.Stops.insert {p : Piece} {cs ds bs : List Char} (h : p.Stops (cs ++ ds))
    (hb : AllBlank bs) : p.Stops (cs ++ (bs ++ ds)) := by
  intro hnumber c hc
  cases cs with
  | cons d cs => exact h hnumber c hc
  | nil =>
    cases bs with
    | cons b bs =>
      obtain rfl := Option.some.inj hc
      exact isNumeralChar_blank (hb b (by simp))
    | nil => exact h hnumber c hc

theorem Divides.insert_blanks {front back : List Piece} {text bs : List Char}
    (h : Divides (front ++ back) text) (hb : AllBlank bs) :
    ∃ blanks, Divides (front ++ (blanks ++ back)) (spelling front ++ (bs ++ spelling back)) ∧
      blanks.filterMap Piece.lexeme? = [] := by
  induction front generalizing text with
  | nil =>
    have htext : spelling back = text := h.spelling_eq
    obtain ⟨blanks, hdivides, hlexemes⟩ := h.exists_blanks hb
    rw [htext]
    exact ⟨blanks, hdivides, hlexemes⟩
  | cons p front ih =>
    rw [List.cons_append] at h
    obtain ⟨rest, -, hstop, hrest⟩ := h.cons_inv
    obtain ⟨blanks, hdivides, hlexemes⟩ := ih hrest
    rw [← hrest.spelling_eq, spelling_append] at hstop
    have hspelling : spelling (p :: front) ++ (bs ++ spelling back) =
        p.chars ++ (spelling front ++ (bs ++ spelling back)) := List.append_assoc _ _ _
    rw [hspelling]
    exact ⟨blanks, .cons (hstop.insert hb) hdivides, hlexemes⟩

theorem scanFrom_of_divides {ps : List Piece} {text : List Char} (h : Divides ps text)
    (position : Nat) : scanFrom position text =
      .ok (tokensAt position ps ++ [⟨.finish, (position + text.length : Nat)⟩]) := by
  induction h generalizing position with
  | nil => rw [scanFrom.eq_def]; rfl
  | @cons p ps rest hstop _ ih =>
    obtain ⟨c, cs, hchars⟩ := p.exists_chars
    have hhead : p.chars ++ rest = c :: (cs ++ rest) := by rw [hchars, List.cons_append]
    have hextra : p.chars.length - 1 = cs.length := by rw [hchars]; rfl
    have hposition : position + 1 + cs.length = position + p.chars.length := by
      rw [hchars, List.length_cons]
      omega
    have hlength : position + p.chars.length + rest.length =
        position + (c :: (cs ++ rest)).length := by
      rw [← hhead, List.length_append, Nat.add_assoc]
    rw [hhead, scanFrom_cons, p.lexemeAt_eq hstop hhead, hextra, ok_bind]
    dsimp only
    rw [List.drop_left, hposition, ih, ok_bind, hlength, tokensAt]
    cases p.lexeme? <;> rfl

inductive Tokenizes (front text : List Char) : Except Fault (List Token) → Prop where
  | pieces {ps tokens} : Divides ps text → Tokenizes front text (.ok tokens)
  | fault {f : Fault} : f.LocatedIn (front ++ text) → Tokenizes front text (.error f)

theorem tokenizes_scanFrom (front text : List Char) :
    Tokenizes front text (scanFrom front.length text) := by
  -- A fault is located in the whole text, so the front grows by each piece.
  generalize hposition : front.length = position
  fun_induction scanFrom position text generalizing front with
  | case1 position => exact .pieces .nil
  | case2 position c cs ih =>
    subst hposition
    have hfinds := finds_lexemeAt front c cs
    generalize lexemeAt front.length c cs = found at hfinds
    cases hfinds with
    | fault hf => exact .fault hf
    | @piece p rest htext hstop =>
      obtain ⟨d, ds, hchars⟩ := p.exists_chars
      have hextra : p.chars.length - 1 = ds.length := by rw [hchars]; rfl
      have hrest : cs.drop ds.length = rest := by
        rw [hchars, List.cons_append] at htext
        rw [(List.cons.inj htext).2, List.drop_left]
      have hlength : (front ++ p.chars).length = front.length + 1 + ds.length := by
        rw [List.length_append, hchars, List.length_cons]
        omega
      have htokenizes := ih ds.length (front ++ p.chars) hlength
      rw [hrest] at htokenizes
      rw [hextra, ok_bind, htext]
      dsimp only
      rw [hrest]
      generalize scanFrom (front.length + 1 + ds.length) rest = tokens at htokenizes
      cases htokenizes with
      | fault hf => exact .fault (by rwa [List.append_assoc] at hf)
      | pieces hdivides =>
        cases p.lexeme? with
        | none => exact .pieces (.cons hstop hdivides)
        | some lexeme => exact .pieces (.cons hstop hdivides)

section Tokens

variable {ps : List Piece} {position : Nat}

theorem lexemes_tokensAt (ps : List Piece) (position : Nat) :
    (tokensAt position ps).map Token.lexeme = ps.filterMap Piece.lexeme? := by
  induction ps generalizing position with
  | nil => rfl
  | cons p ps ih =>
    rw [tokensAt, List.map_append, ih]
    cases h : p.lexeme? with
    | none => rw [List.filterMap_cons_none h]; rfl
    | some lexeme => rw [List.filterMap_cons_some h]; rfl

theorem position_of_mem_tokensAt {t : Token} (ht : t ∈ tokensAt position ps) :
    (position : Int) ≤ t.position ∧ t.position < (position + (spelling ps).length : Nat) := by
  induction ps generalizing position with
  | nil => cases ht
  | cons p ps ih =>
    have hpos := p.length_pos
    have hlength : (spelling (p :: ps)).length = p.chars.length + (spelling ps).length :=
      List.length_append
    rw [tokensAt, List.mem_append, Option.mem_toList] at ht
    rcases ht with ht | ht
    · obtain ⟨lexeme, -, rfl⟩ := Option.map_eq_some_iff.mp ht
      dsimp only
      omega
    · have hlater := ih ht
      omega

theorem ordered_tokensAt (ps : List Piece) (position : Nat) :
    (tokensAt position ps).Pairwise fun t u => t.position < u.position := by
  induction ps generalizing position with
  | nil => exact .nil
  | cons p ps ih =>
    have hpos := p.length_pos
    rw [tokensAt, List.pairwise_append]
    refine ⟨?_, ih _, fun t ht u hu => ?_⟩
    · cases p.lexeme? with
      | none => exact .nil
      | some lexeme => exact List.pairwise_singleton _ _
    · obtain ⟨lexeme, -, rfl⟩ := Option.map_eq_some_iff.mp (Option.mem_toList.mp ht)
      have hlater := position_of_mem_tokensAt hu
      dsimp only
      omega

end Tokens

def scanBy (find : Nat → Char → List Char → Except Fault (Option Lexeme × Nat)) (position : Nat) :
    List Char → Except Fault (List Token)
  | [] => .ok [⟨.finish, position⟩]
  | c :: cs => do
      let (lexeme?, extra) ← find position c cs
      let rest ← scanBy find (position + 1 + extra) (cs.drop extra)
      match lexeme? with
      | some lexeme => return ⟨lexeme, position⟩ :: rest
      | none => return rest
  termination_by cs => cs.length
  decreasing_by
    simp only [List.length_drop, List.length_cons]
    omega

theorem scanBy_lexemeAt (position : Nat) (cs : List Char) :
    scanBy lexemeAt position cs = scanFrom position cs := by
  fun_induction scanFrom position cs with
  | case1 position => rw [scanBy.eq_def]
  | case2 position c cs ih =>
    rw [scanBy.eq_def]
    dsimp only
    cases lexemeAt position c cs with
    | error f => rfl
    | ok found =>
      have hrest := ih found.2
      rw [ok_bind, ok_bind]
      generalize scanBy lexemeAt _ _ = rest at hrest ⊢
      subst hrest
      rfl

def lexemeTrying (names : List (List Char × Lexeme)) (position : Nat) (c : Char) (cs : List Char) :
    Except Fault (Option Lexeme × Nat) :=
  if c.isAlpha then nameAt names position c cs else lexemeAt position c cs

theorem find_perm {names : List (List Char × Lexeme)} (h : names.Perm spelledLexemes)
    (cs : List Char) : (names.find? fun (name, _) => name.isPrefixOf cs) =
      spelledLexemes.find? fun (name, _) => name.isPrefixOf cs := by
  cases hfind : spelledLexemes.find? fun (name, _) => name.isPrefixOf cs with
  | some p =>
    have hfits := List.find?_some hfind
    exact find_spelled h (List.mem_of_find?_eq_some hfind) (List.isPrefixOf_iff_prefix.mp hfits)
  | none =>
    have hnone := List.find?_eq_none.mp hfind
    exact List.find?_eq_none.mpr fun p hp => hnone p (h.mem_iff.mp hp)

theorem lexemeTrying_eq {names : List (List Char × Lexeme)} (h : names.Perm spelledLexemes) :
    lexemeTrying names = lexemeAt := by
  funext position c cs
  unfold lexemeTrying
  split
  · rename_i hletter
    rw [lexemeAt_letter hletter, nameAt, nameAt, find_perm h]
  · rfl

/-- The scan recognises exactly the lexical language. A text is scanned if and only if it can be
divided into pieces. It can then be divided in this way alone, its tokens are the lexemes of its
pieces in their order and the end, and blanks between two pieces change no lexeme. A text that
cannot be divided is refused at a character or a numeral of its own. Names may be tried in any
order. -/
theorem scan_exact (text : String) :
    ((∃ tokens, scan text = .ok tokens) ↔ ∃ pieces, Divides pieces text.toList) ∧
    (∀ pieces, Divides pieces text.toList →
      let tokens : List Token := tokensAt 0 pieces ++ [⟨.finish, text.length⟩]
      (∀ others, Divides others text.toList → others = pieces) ∧
      scan text = .ok tokens ∧
      (tokens.Pairwise fun t u => t.position < u.position) ∧
      ∀ front back blanks, pieces = front ++ back → AllBlank blanks →
        ∃ spaced, scan (String.ofList (spelling front ++ (blanks ++ spelling back))) = .ok spaced ∧
          spaced.map Token.lexeme = tokens.map Token.lexeme) ∧
    (∀ fault, scan text = .error fault → fault.LocatedIn text.toList) ∧
    ∀ names, names.Perm spelledLexemes →
      scanBy (lexemeTrying names) 0 text.toList = scan text := by
  have hscan {pieces : List Piece} {cs : List Char} (h : Divides pieces cs) :
      scanFrom 0 cs = .ok (tokensAt 0 pieces ++ [⟨.finish, cs.length⟩]) := by
    have hall := scanFrom_of_divides h 0
    rwa [Nat.zero_add] at hall
  have hcomes : Tokenizes [] text.toList (scan text) := tokenizes_scanFrom [] text.toList
  refine ⟨⟨?_, ?_⟩, fun pieces h => ⟨fun others hothers => hothers.unique h, hscan h, ?_, ?_⟩,
    ?_, fun names hnames => ?_⟩
  · rintro ⟨tokens, htokens⟩
    rw [htokens] at hcomes
    cases hcomes with
    | pieces hdivides => exact ⟨_, hdivides⟩
  · rintro ⟨pieces, h⟩
    exact ⟨_, hscan h⟩
  · rw [List.pairwise_append]
    refine ⟨ordered_tokensAt pieces 0, List.pairwise_singleton _ _, fun t ht u hu => ?_⟩
    have hlast := (position_of_mem_tokensAt ht).2
    rw [h.spelling_eq, Nat.zero_add, String.length_toList] at hlast
    rwa [List.mem_singleton.mp hu]
  · rintro front back blanks rfl hblanks
    obtain ⟨others, hdivides, hlexemes⟩ := h.insert_blanks hblanks
    refine ⟨_, Eq.trans ?_ (hscan hdivides), ?_⟩
    · rw [scan, String.toList_ofList]
    · simp only [List.map_append, lexemes_tokensAt, List.filterMap_append, hlexemes,
        List.nil_append, List.map_cons, List.map_nil]
  · intro fault hfault
    rw [hfault] at hcomes
    cases hcomes with
    | fault hlocated => exact hlocated
  · rw [lexemeTrying_eq hnames, scanBy_lexemeAt, scan]

theorem scan_exact_two_pi : ∃ x : Binary64, x.isFinite = true ∧
    Binary64.ofText "2" = .ok x ∧
    scan "2 π" = .ok [⟨.number x, 0⟩, ⟨.constant "pi", 2⟩, ⟨.finish, 3⟩] := by
  have hread : Binary64.ofText "2" = .ok (.ofPlain ['2']) :=
    Binary64.ofText_plain (.whole (by simp [AllDigits, isDigit]) (by simp)) false
  have hfinite : (Binary64.ofPlain ['2']).isFinite = true := by decide +kernel
  have hnumeral : IsNumeral ['2'] (.ofPlain ['2']) :=
    ⟨by simp; decide, ⟨'2', by simp, by decide⟩, by decide, hread⟩
  have hdivides : Divides [⟨['2'], _, .number hnumeral hfinite⟩, ⟨[' '], _, .blank (by decide)⟩,
      ⟨['π'], _, .greekPi⟩] ['2', ' ', 'π'] := by
    refine .cons (fun _ c hc => ?_) (.cons (fun h => ?_) (.cons (fun h => ?_) .nil))
    · obtain rfl := Option.some.inj hc
      decide
    · cases h
    · cases h
  exact ⟨_, hfinite, hread, ((scan_exact "2 π").2.1 _ hdivides).2.1⟩

end DeskCalculator
