namespace DeskCalculator.Text

def isBlank (c : Char) : Bool :=
  let n := c.toNat
  (0x9 ≤ n && n ≤ 0xd) || (0x1c ≤ n && n ≤ 0x20) || n = 0x85 || n = 0xa0 || n = 0x1680 ||
    (0x2000 ≤ n && n ≤ 0x200a) || n = 0x2028 || n = 0x2029 || n = 0x202f || n = 0x205f ||
    n = 0x3000

def isSpace (c : Char) : Bool :=
  isBlank c && !(0x1c ≤ c.toNat && c.toNat ≤ 0x1f)

def trimEnds (p : Char → Bool) (cs : List Char) : List Char :=
  ((cs.dropWhile p).reverse.dropWhile p).reverse

def trim : List Char → List Char :=
  trimEnds isBlank

def isAllBlank (cs : List Char) : Bool :=
  cs.all isBlank

theorem trim_eq_nil {cs : List Char} (h : isAllBlank cs = true) : trim cs = [] := by
  have hd : cs.dropWhile isBlank = [] := by
    induction cs with
    | nil => rfl
    | cons c cs ih =>
      simp only [isAllBlank, List.all_cons, Bool.and_eq_true] at h
      rw [List.dropWhile_cons_of_pos h.1]
      exact ih h.2
  simp [trim, trimEnds, hd]

end DeskCalculator.Text
