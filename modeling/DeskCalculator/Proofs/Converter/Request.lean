import DeskCalculator.Desk.Request
import DeskCalculator.Proofs.Converter.Conversion

namespace DeskCalculator

namespace Selection

variable {s : Selection} {decimals : Int}

def converted (s : Selection) (decimals : Int) : Except Failure Binary64 :=
  convertValue (.text s.category.name) (.real s.value) s.source s.target (.int decimals)

theorem exists_converted (h : s.Valid) (h0 : 0 ≤ decimals) (h15 : decimals ≤ 15) :
    ∃ y, s.converted decimals = .ok y :=
  exists_convertValue h.source h.target h0 h15 s.value

theorem outcome_result {y : Binary64} (h : s.converted decimals = .ok y) :
    (s.result (.int decimals)).outcome = .ok (.ok y) :=
  conversion_ok h

end Selection

structure Converter.Sound (c : Converter) : Prop where
  selection : c.selection.Valid
  units : c.defaults.units.MapsToUnits
  decimals_nonneg : 0 ≤ c.decimals
  decimals_le : c.decimals ≤ 15

namespace ConverterRequest

def selects (c : Converter) : ConverterRequest → Except Failure Selection
  | .result => .ok c.selection
  | .selectCategory category => c.selection.selectCategory category c.defaults
  | .selectUnits source target => c.selection.selectUnits source target
  | .swapUnits => .ok c.selection.swapUnits
  | .setValue value => c.selection.setValue value
  | .listUnits _ => .ok c.selection

variable {c : Converter} {request : ConverterRequest} {s : Selection}

theorem valid_of_selects (hc : c.Sound) (h : request.selects c = .ok s) : s.Valid := by
  cases request with
  | result =>
    cases h
    exact hc.selection
  | selectCategory category =>
    rcases c.selection.selectCategory_cases category hc.units with ⟨t, ht, hvalid⟩ | hunknown
    · cases ht.symm.trans h
      exact hvalid
    · cases hunknown.symm.trans h
  | selectUnits source target => exact Selection.valid_selectUnits h
  | swapUnits =>
    cases h
    exact Selection.valid_swapUnits hc.selection
  | setValue value => exact Selection.valid_setValue hc.selection h
  | listUnits category =>
    cases h
    exact hc.selection

theorem kind_of_selects {f : Fault} (hc : c.Sound)
    (h : request.selects c = .error (.fault f)) :
    f.kind = .unknownUnit ∨ f.kind = .unknownCategory := by
  cases request with
  | result => cases h
  | selectCategory category =>
    rcases c.selection.selectCategory_cases category hc.units with ⟨t, ht, -⟩ | hunknown
    · cases ht.symm.trans h
    · cases hunknown.symm.trans h
      exact .inr rfl
  | selectUnits source target => exact .inl (Selection.kind_of_selectUnits h)
  | swapUnits => cases h
  | setValue value => exact absurd h (Selection.setValue_ne_fault value f)
  | listUnits category => cases h

theorem exists_change (c : Converter) (h : ∀ category, request ≠ .listUnits category) :
    ∃ operation, request.respond c = c.change operation (request.selects c) := by
  cases request with
  | result => exact ⟨"", rfl⟩
  | selectCategory category => exact ⟨_, rfl⟩
  | selectUnits source target => exact ⟨_, rfl⟩
  | swapUnits => exact ⟨"swap_units", rfl⟩
  | setValue value => exact ⟨_, rfl⟩
  | listUnits category => exact absurd rfl (h category)

end ConverterRequest

namespace Converter

variable {c : Converter}

theorem change_ok {s : Selection} {y : Binary64} (h : s.converted c.decimals = .ok y)
    (operation : String) :
    (c.change operation (.ok s)).state = { c with selection := s } ∧
      (c.change operation (.ok s)).answer = .ok (.result (.ok y)) := by
  refine ⟨rfl, ?_⟩
  simp only [change, result, Selection.outcome_result h]
  rfl

theorem change_error {e : Failure} (he : ∀ f, e ≠ .fault f) (operation : String) :
    (c.change operation (.error e)).state = c ∧
      (c.change operation (.error e)).answer = .error e := by
  cases e with
  | fault f => exact absurd rfl (he f)
  | invalid i => exact ⟨rfl, rfl⟩
  | misuse m => exact ⟨rfl, rfl⟩

inductive Takes (c : Converter) :
    Except Failure Selection → Converter → Except Failure ConverterAnswer → Prop where
  | converts {s : Selection} {y : Binary64} : s.Valid → s.converted c.decimals = .ok y →
      Takes c (.ok s) { c with selection := s } (.ok (.result (.ok y)))
  | reports {f : Fault} : f.kind = .unknownUnit ∨ f.kind = .unknownCategory →
      Takes c (.error (.fault f)) c (.ok (.result (.error f)))
  | fails {e : Failure} : (∀ f, e ≠ .fault f) → Takes c (.error e) c (.error e)

theorem Sound.takes (hc : c.Sound) (request : ConverterRequest)
    (hr : ∀ category, request ≠ .listUnits category) :
    c.Takes (request.selects c) (request.respond c).state (request.respond c).answer := by
  obtain ⟨operation, hchange⟩ := request.exists_change c hr
  rw [hchange]
  cases hselects : request.selects c with
  | ok s =>
    have hvalid := ConverterRequest.valid_of_selects hc hselects
    obtain ⟨y, hy⟩ := Selection.exists_converted hvalid hc.decimals_nonneg hc.decimals_le
    obtain ⟨hstate, hanswer⟩ := change_ok hy operation
    rw [hstate, hanswer]
    exact .converts hvalid hy
  | error e =>
    by_cases he : ∃ f, e = .fault f
    · obtain ⟨f, rfl⟩ := he
      exact .reports (ConverterRequest.kind_of_selects hc hselects)
    · obtain ⟨hstate, hanswer⟩ := change_error (c := c) (fun f hf => he ⟨f, hf⟩) operation
      rw [hstate, hanswer]
      exact .fails fun f hf => he ⟨f, hf⟩

theorem Sound.respond (hc : c.Sound) (request : ConverterRequest) :
    (request.respond c).state.Sound ∧ (request.respond c).state.decimals = c.decimals := by
  by_cases hr : ∃ category, request = .listUnits category
  · obtain ⟨category, rfl⟩ := hr
    exact ⟨hc, rfl⟩
  · have htakes := hc.takes request fun category h => hr ⟨category, h⟩
    generalize (request.respond c).state = after at htakes ⊢
    generalize (request.respond c).answer = answer at htakes
    generalize request.selects c = asked at htakes
    cases htakes with
    | converts hvalid _ => exact ⟨⟨hvalid, hc.units, hc.decimals_nonneg, hc.decimals_le⟩, rfl⟩
    | reports _ => exact ⟨hc, rfl⟩
    | fails _ => exact ⟨hc, rfl⟩

end Converter

end DeskCalculator
