import DeskCalculator.Settings.Check
import DeskCalculator.Proofs.Value.Part

namespace DeskCalculator

namespace Category

variable {c : Category} {v : Value}

theorem ofName?_eq_some {s : String} : ofName? s = some c ↔ s = c.name := by
  constructor
  · intro h
    have hname := List.find?_some h
    exact (of_decide_eq_true hname).symm
  · rintro rfl
    exact ofName?_name c

theorem eq_of_name_eq {c d : Category} (h : c.name = d.name) : c = d := by
  have hc := ofName?_name c
  rw [h, ofName?_name d] at hc
  exact (Option.some.inj hc).symm

theorem ofValue_name (c : Category) : ofValue (.text c.name) = .ok c := by
  simp [ofValue, Value.text, ofName?_name]

theorem ofValue_eq_ok : ofValue v = .ok c ↔ v = .text c.name := by
  constructor
  · intro h
    unfold ofValue at h
    split at h
    · split at h
      · rename_i s d hd
        cases h
        rw [ofName?_eq_some.mp hd]
        rfl
      · cases h
    · cases h
  · rintro rfl
    exact ofValue_name c

theorem ofValue_cases (v : Value) :
    (∃ c : Category, v = .text c.name ∧ ofValue v = .ok c) ∨
      ofValue v = .error (.fault (.unknownCategory v)) := by
  cases h : ofValue v with
  | ok c => exact .inl ⟨c, ofValue_eq_ok.mp h, rfl⟩
  | error e =>
    right
    unfold ofValue at h
    split at h
    · split at h
      · cases h
      · exact h.symm
    · exact h.symm

def IsUnit (c : Category) (v : Value) : Prop :=
  ∃ id ∈ c.unitIds, v = .text id

theorem unit_of_unit? {id : String} {u : MeasureUnit} (h : c.unit? id = some u) :
    u ∈ c.units ∧ c.unit (.text id) = .ok u := by
  refine ⟨List.mem_of_find?_eq_some h, ?_⟩
  rw [unit, Value.lookUp_text, ok_bind, h]
  rfl

theorem unit_of_unit?_none {id : String} (h : c.unit? id = none) :
    c.unit (.text id) = .error (.fault (.unknownUnit c (.text id))) := by
  rw [unit, Value.lookUp_text, ok_bind, h]

theorem unit_of_isUnit (h : c.IsUnit v) : ∃ u ∈ c.units, c.unit v = .ok u ∧ v = .text u.id := by
  obtain ⟨id, hid, rfl⟩ := h
  obtain ⟨w, hw, rfl⟩ := List.mem_map.mp hid
  obtain ⟨u, hu⟩ : ∃ u, c.unit? w.id = some u :=
    Option.isSome_iff_exists.mp (List.find?_isSome.mpr ⟨w, hw, by simp⟩)
  obtain ⟨hmem, hunit⟩ := unit_of_unit? hu
  have hsame := List.find?_some hu
  refine ⟨u, hmem, hunit, ?_⟩
  rw [of_decide_eq_true hsame]

theorem isUnit_of_unit? {id : String} {u : MeasureUnit} (h : c.unit? id = some u) :
    c.IsUnit (.text id) := by
  have hid := List.find?_some h
  exact ⟨id, List.mem_map.mpr ⟨u, List.mem_of_find?_eq_some h, of_decide_eq_true hid⟩, rfl⟩

theorem unit_cases (c : Category) (v : Value) :
    (∃ u, c.unit v = .ok u ∧ c.IsUnit v) ∨ c.unit v = .error (.fault (.unknownUnit c v)) ∨
      ∃ m, c.unit v = .error (.misuse m) := by
  unfold unit
  rcases v.lookUp_cases c.unit? with ⟨-, found, hfound, hiff⟩ | ⟨-, m, hm⟩
  · rw [hfound, ok_bind]
    cases found with
    | none => exact .inr (.inl rfl)
    | some u =>
      obtain ⟨id, rfl, hu⟩ := (hiff u).mp rfl
      exact .inl ⟨u, rfl, isUnit_of_unit? hu⟩
  · exact .inr (.inr ⟨m, by rw [hm, error_bind]⟩)

theorem isUnit_of_unit {u : MeasureUnit} (h : c.unit v = .ok u) : c.IsUnit v := by
  rcases c.unit_cases v with ⟨w, -, hv⟩ | hunknown | ⟨m, hm⟩
  · exact hv
  · cases hunknown.symm.trans h
  · cases hm.symm.trans h

theorem isUnit_firstUnit (c : Category) : c.IsUnit (.text c.firstUnit) := by
  refine ⟨c.firstUnit, ?_, rfl⟩
  cases c <;> decide

theorem isUnitOf_iff : Settings.isUnitOf c v = true ↔ c.IsUnit v := by
  simp [Settings.isUnitOf, IsUnit, Value.isText_iff]

end Category

def Value.MapsToUnits (v : Value) : Prop :=
  ∃ pairs, v = .dict pairs ∧ ∀ e ∈ pairs, ∃ (c : Category) (source target : Value),
    e.1 = .text c.name ∧ (e.2 = .list [source, target] ∨ e.2 = .tuple [source, target]) ∧
      c.IsUnit source ∧ c.IsUnit target

theorem Number.fits_toBinary64 (n : Number) : Fits n.toBinary64 := by
  cases n with
  | real x => exact .ok x
  | int m =>
    simp only [toBinary64]
    split
    · exact .ok _
    · exact .misuse _

theorem Value.toBinary64_ne_fault (v : Value) (f : Fault) : v.toBinary64 ≠ .error (.fault f) := by
  intro h
  unfold toBinary64 at h
  split at h
  · rename_i s
    unfold Binary64.ofText at h
    split at h
    · cases h
    · cases h
  · split at h
    · rename_i n _
      obtain ⟨m, hm⟩ := n.fits_toBinary64 _ h
      cases hm
    · cases h

namespace ConverterDefaults

variable {defaults : ConverterDefaults}

theorem exists_pair (h : defaults.units.MapsToUnits) (c : Category) :
    ∃ source target, defaults.pair c = .ok (source, target) ∧ c.IsUnit source ∧
      c.IsUnit target := by
  obtain ⟨pairs, hunits, hpairs⟩ := h
  cases hget : Entries.get? pairs (.text c.name) with
  | none =>
    refine ⟨_, _, ?_, c.isUnit_firstUnit, c.isUnit_firstUnit⟩
    simp [pair, hunits, Value.fieldOr, hget, Value.null, Value.isEmpty]
  | some x =>
    obtain ⟨d, source, target, hname, hx, hsource, htarget⟩ :=
      hpairs _ (Entries.exists_mem_of_get? hget)
    obtain rfl := Category.eq_of_name_eq (Scalar.text.inj hname)
    refine ⟨source, target, ?_, hsource, htarget⟩
    rcases hx with rfl | rfl <;>
      simp [pair, hunits, Value.fieldOr, hget, Value.isEmpty, Value.item]

end ConverterDefaults

namespace Selection

structure Valid (s : Selection) : Prop where
  source : s.category.IsUnit s.source
  target : s.category.IsUnit s.target

variable {s t : Selection} {defaults : ConverterDefaults}

theorem exists_initial {c : Category} (hc : defaults.category = .text c.name)
    (h : defaults.units.MapsToUnits) :
    ∃ s, initial defaults = .ok s ∧ s.category = c ∧ s.Valid := by
  obtain ⟨source, target, hpair, hsource, htarget⟩ := ConverterDefaults.exists_pair h c
  refine ⟨⟨c, source, target, .zero false⟩, ?_, rfl, ⟨hsource, htarget⟩⟩
  simp [initial, hc, Category.ofValue_name, hpair]

theorem selectCategory_cases (s : Selection) (v : Value) (h : defaults.units.MapsToUnits) :
    (∃ t, s.selectCategory v defaults = .ok t ∧ t.Valid) ∨
      s.selectCategory v defaults = .error (.fault (.unknownCategory v)) := by
  rcases Category.ofValue_cases v with ⟨c, rfl, hc⟩ | hunknown
  · obtain ⟨source, target, hpair, hsource, htarget⟩ := ConverterDefaults.exists_pair h c
    left
    refine ⟨{ s with category := c, source, target }, ?_, ⟨hsource, htarget⟩⟩
    simp [selectCategory, hc, hpair]
  · right
    simp [selectCategory, hunknown]

theorem valid_selectUnits {source target : Value} (h : s.selectUnits source target = .ok t) :
    t.Valid := by
  unfold selectUnits at h
  obtain ⟨u, hu, h⟩ := bind_eq_ok h
  obtain ⟨w, hw, h⟩ := bind_eq_ok h
  cases h
  exact ⟨Category.isUnit_of_unit hu, Category.isUnit_of_unit hw⟩

theorem valid_swapUnits (h : s.Valid) : s.swapUnits.Valid :=
  ⟨h.target, h.source⟩

theorem valid_setValue {v : Value} (hs : s.Valid) (h : s.setValue v = .ok t) : t.Valid := by
  unfold setValue at h
  obtain ⟨x, -, h⟩ := bind_eq_ok h
  cases h
  exact ⟨hs.source, hs.target⟩

theorem kind_of_selectUnits {source target : Value} {f : Fault}
    (h : s.selectUnits source target = .error (.fault f)) : f.kind = .unknownUnit := by
  unfold selectUnits at h
  rcases s.category.unit_cases (orElse source s.source) with ⟨u, hu, -⟩ | hunknown | ⟨m, hm⟩
  · rcases s.category.unit_cases (orElse target s.target) with ⟨w, hw, -⟩ | hunknown | ⟨m, hm⟩
    · simp [hu, hw] at h
    · simp only [hu, hunknown, ok_bind, error_bind] at h
      cases h
      rfl
    · simp [hu, hm] at h
  · simp only [hunknown, error_bind] at h
    cases h
    rfl
  · simp [hm] at h

theorem setValue_ne_fault (v : Value) (f : Fault) : s.setValue v ≠ .error (.fault f) := by
  intro h
  exact v.toBinary64_ne_fault f (eq_error_of_bind_ok h)

end Selection

end DeskCalculator
