import DeskCalculator.Keypad.Transition
import DeskCalculator.Proofs.Decimal.RoundTrip
import DeskCalculator.Proofs.Keypad.Operand

namespace DeskCalculator

theorem Binary64.plain?_of_display {x : Binary64} {cs : List Char} (h : x.display = .ok cs) :
    x.plain? = some cs := by
  unfold display at h
  split at h
  · rename_i ds hds
    rw [hds, Except.ok.inj h]
  · cases h

namespace Operand

variable {x : Binary64} {o : Operand}

theorem plain?_of_ofValue (h : ofValue (.real x) = .ok o) : x.plain? = some o.chars := by
  change (x.display >>= ofChars) = .ok o at h
  obtain ⟨cs, hcs, ho⟩ := bind_eq_ok h
  rw [chars_of_ofChars ho, Binary64.plain?_of_display hcs]

theorem value_of_ofValue (h : ofValue (.real x) = .ok o) : o.value = x.shown :=
  Binary64.ofPlain_of_plain? (plain?_of_ofValue h)

theorem isFinite_of_ofValue (h : ofValue (.real x) = .ok o) : o.value.isFinite = true := by
  have hplain := plain?_of_ofValue h
  rw [value_of_ofValue h, Binary64.isFinite_shown]
  cases x with
  | finite s m => rfl
  | nan => cases hplain
  | infinite s => cases hplain

theorem isOperand_of_display {cs : List Char} (h : x.display = .ok cs) : isOperand cs = true := by
  have hsettles := settles_ofValue x
  change Settles _ (x.display >>= ofChars) at hsettles
  rw [h, ok_bind] at hsettles
  by_contra hnot
  rw [ofChars, dif_neg hnot] at hsettles
  exact hsettles

theorem exists_ofValue (h : x.isFinite = true) :
    ∃ o, ofValue (.real x) = .ok o ∧ x.display = .ok o.chars := by
  cases x with
  | finite s m =>
    obtain ⟨negative, whole, fraction, -, -, -, hplain⟩ := Binary64.plain?_finite s m
    generalize Binary64.sign negative ++ (whole ++ Decimal.pointed fraction) = cs at hplain
    have hdisplay : (Binary64.finite s m).display = .ok cs := by
      rw [Binary64.display, hplain]
    refine ⟨⟨cs, isOperand_of_display hdisplay⟩, ?_, hdisplay⟩
    change (Binary64.display _ >>= ofChars) = _
    rw [hdisplay, ok_bind, ofChars_eq]
  | nan => cases h
  | infinite s => cases h

theorem read_display (x : Binary64) :
    (x.display >>= fun cs => Binary64.ofText (String.ofList cs)) =
      ofValue (.real x) >>= fun o => .ok o.value := by
  change _ = (x.display >>= ofChars) >>= _
  cases h : x.display with
  | error e => rfl
  | ok cs =>
    rw [ok_bind, ok_bind, ofChars_eq (isOperand_of_display h), ok_bind]
    exact ofText_text ⟨cs, isOperand_of_display h⟩

theorem display_of_ofValue (h : ofValue (.real x) = .ok o) : o.value.display = .ok o.chars := by
  have hplain : o.value.plain? = some o.chars := by
    rw [value_of_ofValue h, Binary64.plain?_shown, plain?_of_ofValue h]
  unfold Binary64.display
  rw [hplain]

end Operand

def Operator.compute (op : Operator) (decimals : Int) (x y : Binary64) :
    Except Failure Operand := do
  let result ← op.apply (.real x) (.real y)
  let rounded ← result.quantity.roundHalfUp (.int decimals)
  Operand.ofValue (.real rounded)

namespace Operator

variable {op : Operator} {decimals : Int} {x y : Binary64} {o : Operand}

theorem ofValue_of_compute (h : op.compute decimals x y = .ok o) :
    ∃ rounded, Operand.ofValue (.real rounded) = .ok o := by
  obtain ⟨result, -, hrest⟩ := bind_eq_ok h
  obtain ⟨rounded, -, ho⟩ := bind_eq_ok hrest
  exact ⟨rounded, ho⟩

end Operator

namespace State

variable {s t : State} {decimals : Int}

theorem evaluate_pending {o : Operand} {op : Operator} (hprevious : s.previous = some o)
    (hpending : s.pending = some op) :
    s.evaluate decimals = op.compute decimals o.value s.current.value >>= fun c =>
      .ok ⟨c, none, none, true, ""⟩ := by
  simp only [evaluate, hprevious, hpending, Operator.compute, bind_assoc, pure_eq_ok]

theorem evaluate_of_not_pending (h : s.pending = none) : s.evaluate decimals = .ok s := by
  unfold evaluate
  rw [h]
  cases s.previous <;> rfl

end State

end DeskCalculator
