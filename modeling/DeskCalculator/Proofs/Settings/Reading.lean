import DeskCalculator.Proofs.Settings.Check

namespace DeskCalculator

namespace Settings

section Parts

theorem fits_readInt (v : Value) : Fits (readInt v) := by
  unfold readInt
  split
  · exact .ok _
  · exact .misuse _

theorem fits_readText (v : Value) : Fits (readText v) := by
  unfold readText
  split
  · exact .ok _
  · exact .misuse _

theorem fits_readBool (v : Value) : Fits (readBool v) := by
  unfold readBool
  split
  · exact .ok _
  · exact .misuse _

theorem fits_readPair (e : Scalar × Value) : Fits (readPair e) := by
  unfold readPair
  refine (Value.fits_item _ _).bind fun source => ?_
  exact (Value.fits_item _ _).bind fun target => .ok _

def tupled : Value → Value
  | .list xs => .tuple xs
  | v => v

def tupledUnits : Value → Value
  | .dict pairs => .dict (pairs.map fun e => (e.1, tupled e.2))
  | units => units

theorem mapM_readPair {pairs : Entries} (h : ∀ e ∈ pairs, ∃ source target,
      e.2 = Value.list [source, target] ∨ e.2 = Value.tuple [source, target]) :
    pairs.mapM readPair = .ok (pairs.map fun e => (e.1, tupled e.2)) := by
  induction pairs with
  | nil => rfl
  | cons e pairs ih =>
    obtain ⟨key, pair⟩ := e
    have hrest := ih fun e he => h e (List.mem_cons_of_mem _ he)
    obtain ⟨source, target, hpair⟩ := h _ (List.mem_cons_self ..)
    rw [List.mapM_cons, hrest]
    rcases hpair with rfl | rfl <;> rfl

theorem mapsToUnits_tupledUnits {units : Value} (h : units.MapsToUnits) :
    (tupledUnits units).MapsToUnits := by
  obtain ⟨pairs, rfl, hpairs⟩ := h
  refine ⟨_, rfl, fun e he => ?_⟩
  obtain ⟨e, hmem, rfl⟩ := List.mem_map.mp he
  obtain ⟨c, source, target, hname, hpair, hunits⟩ := hpairs e hmem
  refine ⟨c, source, target, hname, .inr ?_, hunits⟩
  dsimp only
  rcases hpair with hpair | hpair
  · rw [hpair]
    rfl
  · rw [hpair]
    rfl

end Parts

theorem fits_ofValue (v : Value) : Fits (ofValue v) := by
  have read {α : Type} {f : Value → Except Failure α} (hf : ∀ x, Fits (f x)) (v : Value)
      (name : String) : Fits (v.field name >>= f) :=
    (v.fits_field name).bind hf
  unfold ofValue
  refine (v.fits_field _).bind fun precision => ?_
  refine (read fits_readInt precision _).bind fun resultDecimals => ?_
  refine (read fits_readInt precision _).bind fun conversionDecimals => ?_
  refine (v.fits_field _).bind fun converter => ?_
  refine (converter.fits_field _).bind fun category => ?_
  refine (read Value.fits_entries converter _).bind fun pairs => ?_
  refine (Fits.mapM fits_readPair pairs).bind fun units => ?_
  refine (v.fits_field _).bind fun journal => ?_
  refine (read fits_readText journal _).bind fun level => ?_
  refine (read fits_readBool journal _).bind fun json => ?_
  exact (read fits_readBool journal _).bind fun caller => .ok _

theorem complete_of_ofValue {merged : Entries} {s : Settings}
    (h : ofValue (.dict merged) = .ok s) : Complete merged := by
  unfold ofValue at h
  obtain ⟨precision, hprecision, h⟩ := bind_eq_ok h
  obtain ⟨resultDecimals, hresult, h⟩ := bind_eq_ok h
  obtain ⟨conversionDecimals, hconversion, h⟩ := bind_eq_ok h
  obtain ⟨converter, hconverter, h⟩ := bind_eq_ok h
  obtain ⟨category, hcategory, h⟩ := bind_eq_ok h
  obtain ⟨pairs, hpairs, h⟩ := bind_eq_ok h
  obtain ⟨units, -, h⟩ := bind_eq_ok h
  obtain ⟨journal, hjournal, h⟩ := bind_eq_ok h
  obtain ⟨level, hlevel, h⟩ := bind_eq_ok h
  obtain ⟨json, hjson, h⟩ := bind_eq_ok h
  obtain ⟨caller, hcaller, -⟩ := bind_eq_ok h
  have filled {part name : String} {v x : Value} (hv : (Value.dict merged).field part = .ok v)
      (hx : v.field name = .ok x) : ∃ x, setting? merged part name = some x :=
    ⟨x, setting?_eq_some.mpr ⟨v, Value.field_dict.mp hv, hx⟩⟩
  obtain ⟨_, hresult, -⟩ := bind_eq_ok hresult
  obtain ⟨_, hconversion, -⟩ := bind_eq_ok hconversion
  obtain ⟨_, hpairs, -⟩ := bind_eq_ok hpairs
  obtain ⟨_, hlevel, -⟩ := bind_eq_ok hlevel
  obtain ⟨_, hjson, -⟩ := bind_eq_ok hjson
  obtain ⟨_, hcaller, -⟩ := bind_eq_ok hcaller
  simp only [Complete, slots, List.forall_mem_cons]
  exact ⟨filled hprecision hresult, filled hprecision hconversion, filled hconverter hcategory,
    filled hconverter hpairs, filled hjournal hlevel, filled hjournal hjson,
    filled hjournal hcaller, by simp⟩

structure Recorded (merged : Entries) (s : Settings) : Prop where
  resultDecimals : setting? merged "precision" "result_decimals" = some (.int s.resultDecimals)
  conversionDecimals :
    setting? merged "precision" "conversion_decimals" = some (.int s.conversionDecimals)
  category : setting? merged "converter" "default_category" = some s.converter.category
  units : ∃ units, setting? merged "converter" "default_units" = some units ∧
    s.converter.units = tupledUnits units
  level : setting? merged "logging" "level" = some (.text s.journal.level)
  json : setting? merged "logging" "format_json" = some (.bool s.journal.json)
  caller : setting? merged "logging" "include_caller" = some (.bool s.journal.caller)

theorem exists_recorded {merged : Entries} (h : Accepted merged) :
    ∃ s, Recorded merged s ∧ IsDecimals (.int s.resultDecimals) ∧
      IsDecimals (.int s.conversionDecimals) ∧ IsCategoryName s.converter.category ∧
      s.converter.units.MapsToUnits := by
  simp only [Accepted, slots, List.forall_mem_cons] at h
  obtain ⟨⟨_, hresult, ⟨n, rfl, hn⟩⟩, ⟨_, hconversion, ⟨m, rfl, hm⟩⟩, ⟨_, hcategory, ⟨c, rfl⟩⟩,
    ⟨units, hunits, hmaps⟩, ⟨_, hlevel, ⟨level, rfl, -⟩⟩, ⟨_, hjson, ⟨json, rfl⟩⟩,
    ⟨_, hcaller, ⟨caller, rfl⟩⟩, -⟩ := h
  exact ⟨⟨n, m, ⟨.text c.name, tupledUnits units⟩, ⟨level, json, caller⟩⟩,
    ⟨hresult, hconversion, hcategory, ⟨units, hunits, rfl⟩, hlevel, hjson, hcaller⟩,
    ⟨n, rfl, hn⟩, ⟨m, rfl, hm⟩, ⟨c, rfl⟩, mapsToUnits_tupledUnits hmaps⟩

theorem ofValue_of_recorded {merged : Entries} {s : Settings} (h : Recorded merged s)
    (hmaps : ∀ units, setting? merged "converter" "default_units" = some units →
      units.MapsToUnits) : ofValue (.dict merged) = .ok s := by
  obtain ⟨precision, hprecision, hresult⟩ := setting?_eq_some.mp h.resultDecimals
  obtain ⟨_, hsame, hconversion⟩ := setting?_eq_some.mp h.conversionDecimals
  cases hprecision.symm.trans hsame
  obtain ⟨converter, hconverter, hcategory⟩ := setting?_eq_some.mp h.category
  obtain ⟨written, hwritten, hunits⟩ := h.units
  obtain ⟨_, hsame, hmapping⟩ := setting?_eq_some.mp hwritten
  cases hconverter.symm.trans hsame
  obtain ⟨journal, hjournal, hlevel⟩ := setting?_eq_some.mp h.level
  obtain ⟨_, hsame, hjson⟩ := setting?_eq_some.mp h.json
  cases hjournal.symm.trans hsame
  obtain ⟨_, hsame, hcaller⟩ := setting?_eq_some.mp h.caller
  cases hjournal.symm.trans hsame
  obtain ⟨pairs, rfl, hpairs⟩ := hmaps written hwritten
  have hread := mapM_readPair fun e he => by
    obtain ⟨c, source, target, -, hpair, -⟩ := hpairs e he
    exact ⟨source, target, hpair⟩
  obtain ⟨resultDecimals, conversionDecimals, ⟨category, units⟩, ⟨level, json, caller⟩⟩ := s
  obtain rfl : units = tupledUnits (.dict pairs) := hunits
  simp only [ofValue, Value.field_dict.mpr hprecision, Value.field_dict.mpr hconverter,
    Value.field_dict.mpr hjournal, hresult, hconversion, hcategory, hmapping, hlevel, hjson,
    hcaller, ok_bind, pure_eq_ok, Value.entries, hread]
  rfl

end Settings

end DeskCalculator
