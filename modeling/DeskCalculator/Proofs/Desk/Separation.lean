import DeskCalculator.Proofs.Desk.Run

namespace DeskCalculator

inductive Side where
  | keypad
  | converter
  deriving DecidableEq, Repr

namespace Request

def side : Request → Side
  | .keypad _ => .keypad
  | .converter _ => .converter

inductive IsEvaluation : Request → Prop where
  | mk (text : Value) : IsEvaluation (.keypad (.evaluate text))

end Request

inductive Omits {α : Type} (p : α → Prop) : List α → List α → Prop where
  | nil : Omits p [] []
  | keep {a as bs} : Omits p as bs → Omits p (a :: as) (a :: bs)
  | skip {a as bs} : p a → Omits p as bs → Omits p (a :: as) bs

structure Exchange where
  request : Request
  answer : Except Failure Answer
  events : List Event

namespace Desk

def SameSide : Side → Desk → Desk → Prop
  | .keypad, desk, other => other.keypad = desk.keypad
  | .converter, desk, other => other.converter = desk.converter

def exchange (desk : Desk) (request : Request) : Exchange :=
  ⟨request, (desk.respond request).answer, (desk.respond request).events⟩

def transcript (desk : Desk) (requests : List Request) : List Exchange :=
  List.zipWith (fun request reply => ⟨request, reply.answer, reply.events⟩) requests
    (desk.respondAll requests)

section Steps

variable {desk other : Desk} {side : Side} {request : Request}

theorem transcript_cons (desk : Desk) (request : Request) (requests : List Request) :
    desk.transcript (request :: requests) =
      desk.exchange request :: (desk.respond request).state.transcript requests := rfl

theorem SameSide.refl (side : Side) (desk : Desk) : SameSide side desk desk := by
  cases side <;> rfl

theorem SameSide.respond (h : SameSide request.side desk other) :
    other.exchange request = desk.exchange request ∧
      SameSide request.side (desk.respond request).state (other.respond request).state := by
  cases request with
  | keypad request =>
    change other.keypad = desk.keypad at h
    simp only [exchange, Desk.respond, h, Request.side, SameSide, and_self]
  | converter request =>
    change other.converter = desk.converter at h
    simp only [exchange, Desk.respond, h, Request.side, SameSide, and_self]

theorem SameSide.of_other_side (h : SameSide side desk other) (hside : request.side ≠ side) :
    SameSide side (desk.respond request).state other := by
  cases request with
  | keypad request =>
    cases side with
    | keypad => exact absurd rfl hside
    | converter => exact h
  | converter request =>
    cases side with
    | keypad => exact h
    | converter => exact absurd rfl hside

theorem respond_evaluation (h : request.IsEvaluation) : (desk.respond request).state = desk := by
  cases h
  rfl

end Steps

section Run

variable {desk other : Desk} {side : Side}

theorem SameSide.transcript (h : SameSide side desk other) (requests : List Request) :
    other.transcript (requests.filter (·.side = side)) =
        (desk.transcript requests).filter (·.request.side = side) ∧
      SameSide side (desk.run requests) (other.run (requests.filter (·.side = side))) := by
  induction requests generalizing desk other with
  | nil => exact ⟨rfl, h⟩
  | cons request requests ih =>
    rw [transcript_cons]
    by_cases hside : request.side = side
    · subst hside
      obtain ⟨hexchange, hstate⟩ := h.respond
      obtain ⟨htranscript, hrun⟩ := ih hstate
      rw [List.filter_cons_of_pos (by simp), List.filter_cons_of_pos (by simp [exchange]),
        transcript_cons, hexchange, htranscript]
      exact ⟨rfl, hrun⟩
    · rw [List.filter_cons_of_neg (by simp [hside]),
        List.filter_cons_of_neg (by simp [exchange, hside])]
      exact ih (h.of_other_side hside)

theorem transcript_omits {requests fewer : List Request}
    (h : Omits Request.IsEvaluation requests fewer) (desk : Desk) :
    Omits (·.request.IsEvaluation) (desk.transcript requests) (desk.transcript fewer) ∧
      desk.run fewer = desk.run requests := by
  induction h generalizing desk with
  | nil => exact ⟨.nil, rfl⟩
  | @keep request requests fewer _ ih =>
    obtain ⟨homits, hrun⟩ := ih (desk.respond request).state
    exact ⟨.keep homits, hrun⟩
  | @skip request requests fewer hevaluation _ ih =>
    obtain ⟨homits, hrun⟩ := ih desk
    rw [transcript_cons, run_cons, respond_evaluation hevaluation]
    exact ⟨.skip hevaluation homits, hrun⟩

end Run

/-- The sides of a desk do not interfere. The exchanges with one side, in the midst of exchanges
with the other, are those with that side alone, on this desk or on any that has the same side, and
they leave the side the same. Evaluations can be left out without an effect on any other exchange
or on the desk. -/
theorem transcript_separates (desk : Desk) (requests : List Request) :
    (∀ side other, SameSide side desk other →
      other.transcript (requests.filter (·.side = side)) =
          (desk.transcript requests).filter (·.request.side = side) ∧
        SameSide side (desk.run requests) (other.run (requests.filter (·.side = side)))) ∧
    ∀ fewer, Omits Request.IsEvaluation requests fewer →
      Omits (·.request.IsEvaluation) (desk.transcript requests) (desk.transcript fewer) ∧
        desk.run fewer = desk.run requests := by
  constructor
  · intro side other h
    exact h.transcript requests
  · intro fewer h
    exact transcript_omits h desk

theorem transcript_separates_between_keys : ∃ desk, (start .null .null).1 = .ok desk ∧
    let requests : List Request := [.keypad (.press (.text "7")), .converter .swapUnits,
      .keypad (.evaluate (.text "1/0")), .converter (.selectUnits (.text "cubit") .null),
      .keypad (.press (.text "inverse"))]
    let fewer : List Request := [.keypad (.press (.text "7")), .converter .swapUnits,
      .converter (.selectUnits (.text "cubit") .null), .keypad (.press (.text "inverse"))]
    desk.transcript (requests.filter (·.side = .keypad)) =
        (desk.transcript requests).filter (·.request.side = .keypad) ∧
      desk.run fewer = desk.run requests := by
  obtain ⟨desk, hdesk⟩ : ∃ desk, (start .null .null).1 = .ok desk := ⟨_, rfl⟩
  refine ⟨desk, hdesk, ?_, ?_⟩
  · exact ((transcript_separates desk _).1 .keypad desk (.refl .keypad desk)).1
  · exact ((transcript_separates desk _).2 _
      (.keep (.keep (.skip (.mk (.text "1/0")) (.keep (.keep .nil)))))).2

end Desk

end DeskCalculator
