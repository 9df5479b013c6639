import DeskCalculator.Proofs.Converter.Request
import DeskCalculator.Proofs.Desk.Start

namespace DeskCalculator

namespace Desk

def run (desk : Desk) (requests : List Request) : Desk :=
  requests.foldl (fun desk request => (desk.respond request).state) desk

variable {desk : Desk} {settings : Settings}

@[simp] theorem run_cons (request : Request) (requests : List Request) :
    desk.run (request :: requests) = (desk.respond request).state.run requests := rfl

structure KeepsTo (desk : Desk) (settings : Settings) : Prop where
  same_settings : desk.settings = settings
  converter : desk.converter.Sound
  decimals : desk.converter.decimals = settings.conversionDecimals

theorem KeepsTo.respond (h : desk.KeepsTo settings) (request : Request) :
    (desk.respond request).state.KeepsTo settings := by
  cases request with
  | keypad request => exact ⟨h.same_settings, h.converter, h.decimals⟩
  | converter request =>
    obtain ⟨hsound, hdecimals⟩ := h.converter.respond request
    exact ⟨h.same_settings, hsound, hdecimals.trans h.decimals⟩

theorem KeepsTo.run (h : desk.KeepsTo settings) (requests : List Request) :
    (desk.run requests).KeepsTo settings := by
  induction requests generalizing desk with
  | nil => exact h
  | cons request requests ih => exact ih (h.respond request)

end Desk

end DeskCalculator
