import DeskCalculator.Desk.Basic
import DeskCalculator.Proofs.Settings.Reading

namespace DeskCalculator

namespace Settings

/-- The entries that a value lays over others: those of a dictionary, none of an empty value. -/
inductive Layer : Value → Entries → Prop where
  | dict (entries : Entries) : Layer (.dict entries) entries
  | empty {v : Value} : v.isEmpty = true → Layer v []

theorem Layer.ofFile {v : Value} {entries : Entries} (h : Layer v entries) :
    Layer (ofFile v) entries := by
  cases h with
  | dict entries =>
    cases entries with
    | nil => exact .dict []
    | cons e rest => exact .dict (e :: rest)
  | empty hempty =>
    rw [Settings.ofFile, if_pos hempty]
    exact .dict []

theorem Layer.overlayValue {v : Value} {entries : Entries} (h : Layer v entries) (base : Entries) :
    base.overlayValue v = .ok (Entries.overlay base entries) := by
  cases h with
  | dict entries =>
    cases entries with
    | nil => simp [Entries.overlayValue, Value.isEmpty, Entries.overlay]
    | cons e rest => simp [Entries.overlayValue, Value.isEmpty, Value.entries]
  | empty hempty => simp [Entries.overlayValue, hempty, Entries.overlay]

def layered (f g : Entries) : Entries :=
  Entries.overlay (Entries.overlay standard.entries f) g

theorem merge_eq {file session : Value} {f g : Entries} (hf : Layer file f)
    (hg : Layer session g) : merge file session = .ok (layered f g) := by
  rw [merge, hf.ofFile.overlayValue, ok_bind, hg.overlayValue]
  rfl

theorem Accepted.part_eq_dict {merged : Entries} (h : Accepted merged) {slot : Slot}
    (hslot : slot ∈ slots) {v : Value} (hv : merged.get? (.text slot.part) = some v) :
    v.kind = .dict ∧ ∀ x, v.field slot.name = .ok x → slot.takes x := by
  obtain ⟨x, hx, htakes⟩ := h slot hslot
  obtain ⟨w, hw, hfield⟩ := setting?_eq_some.mp hx
  cases hv.symm.trans hw
  refine ⟨Value.kind_eq_dict.mpr (Value.eq_dict_of_field hfield), fun y hy => ?_⟩
  cases hfield.symm.trans hy
  exact htakes

theorem Accepted.checkable {merged : Entries} (h : Accepted merged) : Checkable merged where
  precision v hv := by
    have hslot : ⟨"precision", "result_decimals", IsDecimals⟩ ∈ slots := by simp [slots]
    have hdict := (h.part_eq_dict hslot hv).1
    exact ⟨.inl hdict, .inl hdict⟩
  converter v hv := by
    have hslot : ⟨"converter", "default_category", IsCategoryName⟩ ∈ slots := by simp [slots]
    obtain ⟨hdict, htakes⟩ := h.part_eq_dict hslot hv
    refine ⟨hdict, fun x hx => ?_⟩
    obtain ⟨c, rfl⟩ := htakes x hx
    exact .scalar _
  journal v hv := by
    have hslot : ⟨"logging", "level", IsLevelName⟩ ∈ slots := by simp [slots]
    have hdict := (h.part_eq_dict hslot hv).1
    exact ⟨⟨.inl hdict, .inl hdict⟩, .inl hdict⟩

end Settings

namespace Desk

structure Configured (desk : Desk) (merged : Entries) : Prop where
  recorded : Settings.Recorded merged desk.settings
  keypad : desk.keypad = .start desk.settings.resultDecimals
  decimals : desk.converter.decimals = desk.settings.conversionDecimals
  decimals_nonneg : 0 ≤ desk.converter.decimals
  decimals_le : desk.converter.decimals ≤ 15
  defaults : desk.converter.defaults = desk.settings.converter
  units : desk.converter.defaults.units.MapsToUnits
  category : desk.settings.converter.category = .text desk.converter.selection.category.name
  selection : desk.converter.selection.Valid

theorem exists_configured {merged : Entries} (h : Settings.Accepted merged) :
    ∃ desk, (Settings.ofValue (.dict merged) >>= ofSettings) = .ok desk ∧
      desk.Configured merged := by
  obtain ⟨s, hrecorded, -, ⟨n, hn, h0, h15⟩, ⟨c, hc⟩, hunits⟩ := Settings.exists_recorded h
  obtain ⟨selection, hinitial, hcategory, hvalid⟩ := Selection.exists_initial hc hunits
  have hmaps := (Settings.accepted_iff.mp h).2 ⟨"converter", "default_units", Value.MapsToUnits⟩
    (by simp [Settings.slots])
  cases hn
  refine ⟨⟨s, .start s.resultDecimals, ⟨selection, s.converter, s.conversionDecimals⟩⟩, ?_,
    hrecorded, rfl, rfl, h0, h15, rfl, hunits, ?_, hvalid⟩
  · simp [Settings.ofValue_of_recorded hrecorded hmaps, ofSettings, hinitial]
  · rw [hc, hcategory]

inductive SetsUp (merged : Entries) : Except Failure Desk → Prop where
  | accepted {desk : Desk} : Settings.Accepted merged → desk.Configured merged →
      SetsUp merged (.ok desk)
  | refused {complaints : List Complaint} : Settings.Checkable merged →
      ¬Settings.Faultless merged → Settings.check (.dict merged) = .ok complaints →
      complaints ≠ [] →
      SetsUp merged (.error (.invalid (.settings (complaints.map Complaint.message))))
  | fails (m : Misuse) : ¬Settings.Checkable merged ∨
      Settings.Faultless merged ∧ ¬Settings.Complete merged → SetsUp merged (.error (.misuse m))

theorem setsUp (merged : Entries) : SetsUp merged (setUp (.dict merged)).1 := by
  have hchecks := Settings.checks_check merged
  unfold setUp
  cases hcheck : Settings.check (.dict merged) with
  | error e =>
    rw [hcheck] at hchecks
    obtain ⟨hable, m, rfl⟩ := hchecks
    exact .fails m (.inl hable)
  | ok complaints =>
    rw [hcheck] at hchecks
    obtain ⟨hable, hclear⟩ := hchecks
    cases complaints with
    | cons c cs =>
      refine .refused hable ?_ hcheck (List.cons_ne_nil c cs)
      rw [← hclear]
      exact List.cons_ne_nil c cs
    | nil =>
      have hfaultless := hclear.mp rfl
      by_cases hcomplete : Settings.Complete merged
      · have haccepted := Settings.accepted_iff.mpr ⟨hcomplete, hfaultless⟩
        obtain ⟨desk, hdesk, hconfigured⟩ := exists_configured haccepted
        simp only [hdesk]
        exact .accepted haccepted hconfigured
      · rcases (Settings.fits_ofValue (.dict merged)).cases with ⟨s, hs⟩ | ⟨m, hm⟩
        · exact absurd (Settings.complete_of_ofValue hs) hcomplete
        · simp only [hm, error_bind]
          exact .fails m (.inr ⟨hfaultless, hcomplete⟩)

section Start

variable {file session : Value} {f g : Entries}

theorem starts (hf : Settings.Layer file f) (hg : Settings.Layer session g) :
    SetsUp (Settings.layered f g) (start file session).1 := by
  unfold start
  rw [Settings.merge_eq hf hg]
  exact setsUp (Settings.layered f g)

/-- A desk is set up exactly if every setting is there and can be taken. It then has the settings
of the session, of the file where the session has none, and the standard ones otherwise. -/
theorem start_iff (hf : Settings.Layer file f) (hg : Settings.Layer session g) :
    Settings.merge file session = .ok (Settings.layered f g) ∧
      ((∃ desk, (start file session).1 = .ok desk) ↔
        Settings.Accepted (Settings.layered f g)) ∧
      ∀ desk, (start file session).1 = .ok desk → desk.Configured (Settings.layered f g) := by
  have hstarts := starts hf hg
  refine ⟨Settings.merge_eq hf hg, ⟨?_, ?_⟩, ?_⟩
  · rintro ⟨desk, hdesk⟩
    rw [hdesk] at hstarts
    cases hstarts with
    | accepted haccepted _ => exact haccepted
  · intro haccepted
    obtain ⟨hcomplete, hfaultless⟩ := Settings.accepted_iff.mp haccepted
    generalize (start file session).1 = outcome at hstarts ⊢
    cases hstarts with
    | accepted _ _ => exact ⟨_, rfl⟩
    | refused _ hfaulty _ _ => exact absurd hfaultless hfaulty
    | fails m hm =>
      rcases hm with hunable | ⟨-, hincomplete⟩
      · exact absurd haccepted.checkable hunable
      · exact absurd hcomplete hincomplete
  · intro desk hdesk
    rw [hdesk] at hstarts
    cases hstarts with
    | accepted _ hconfigured => exact hconfigured

theorem start_iff_tuple_and_refilled_part :
    let units := [(.text "converter", .dict [(.text "default_units",
      .dict [(.text "length", .tuple [.text "mile", .text "inch"])])])]
    (∃ desk, (start .null (.dict units)).1 = .ok desk ∧
      desk.Configured (Settings.layered [] units) ∧
      desk.converter.selection = ⟨.length, .text "mile", .text "inch", .zero false⟩) ∧
    ¬∃ desk, (start (.dict [(.text "precision", .null)])
      (.dict [(.text "precision", .dict [(.text "result_decimals", .int 3)])])).1 = .ok desk := by
  intro units
  refine ⟨?_, fun h => ?_⟩
  · have hstart := start_iff (.empty (v := .null) rfl) (.dict units)
    exact ⟨_, rfl, hstart.2.2 _ rfl, rfl⟩
  · have haccepted := (start_iff (.dict _) (.dict _)).2.1.mp h
    obtain ⟨x, hx, -⟩ := haccepted ⟨"precision", "conversion_decimals", Settings.IsDecimals⟩
      (by simp [Settings.slots])
    cases hx

/-- Complaints are reported exactly if the check gets through and finds a setting that cannot be
taken. The start fails by misuse exactly if the check does not get through, or if it finds nothing
and a setting is missing. Nothing else goes wrong. -/
theorem start_complains_iff (hf : Settings.Layer file f) (hg : Settings.Layer session g) :
    ((∃ complaints, Settings.check (.dict (Settings.layered f g)) = .ok complaints ∧
        complaints ≠ [] ∧ (start file session).1 =
          .error (.invalid (.settings (complaints.map Complaint.message)))) ↔
      Settings.Checkable (Settings.layered f g) ∧ ¬Settings.Faultless (Settings.layered f g)) ∧
    ((∃ m, (start file session).1 = .error (.misuse m)) ↔
      ¬Settings.Checkable (Settings.layered f g) ∨ Settings.Faultless (Settings.layered f g) ∧
        ¬Settings.Complete (Settings.layered f g)) ∧
    ∀ e, (start file session).1 = .error e →
      (∃ complaints, e = .invalid (.settings complaints)) ∨ ∃ m, e = .misuse m := by
  have hstarts := starts hf hg
  generalize (start file session).1 = outcome at hstarts ⊢
  cases hstarts with
  | accepted haccepted _ =>
    obtain ⟨hcomplete, hfaultless⟩ := Settings.accepted_iff.mp haccepted
    simp [hcomplete, hfaultless, haccepted.checkable]
  | @refused complaints hable hfaulty hcheck hne =>
    simp [hable, hfaulty, hcheck, hne]
  | fails m hm =>
    rcases hm with hunable | ⟨hfaultless, hincomplete⟩
    · simp [hunable]
    · simp [hfaultless, hincomplete]

theorem start_complains_iff_faulty_level :
    let merged := Settings.layered [] [(.text "logging", .dict [(.text "level", .text "LOUD")])]
    Settings.Checkable merged ∧ ¬Settings.Faultless merged :=
  (start_complains_iff (.empty (v := .null) rfl) (.dict _)).1.mp
    ⟨[⟨"level", .level, .text "LOUD"⟩], rfl, List.cons_ne_nil _ _, rfl⟩

theorem start_fails_on_listed_category :
    (start .null (.dict [(.text "converter",
      .dict [(.text "default_category", .list [.text "length"])])])).1 =
    .error (.misuse (.noKey .list)) := by
  rfl

end Start

end Desk

end DeskCalculator
