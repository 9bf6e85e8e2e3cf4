import Coglet.Const.Eval

-- The types of folded constants. They are those that the checker assigns to the same operations.

namespace Coglet

theorem Folded.bind_eq_ok {f : Folded α} {g : α → Folded β} :
    (f >>= g) = .ok b ↔ ∃ a, f = .ok a ∧ g a = .ok b := by
  cases f
  case ok a => simp
  all_goals exact ⟨nofun, fun ⟨_, h, _⟩ => nomatch h⟩

theorem integerConstantResult_type (h : integerConstantResult type kind i = .ok v) : v.type = type := by
  unfold integerConstantResult at h
  split at h
  case isTrue => cases h
  case isFalse =>
    split at h <;> cases h
    rfl

theorem floatConstantResult_type (h : floatConstantResult type kind f = .ok v) : v.type = type := by
  unfold floatConstantResult at h
  split at h
  case isTrue => cases h
  case isFalse =>
    split at h <;> cases h
    rfl

theorem evalUnaryMinus_type (h : evalUnaryMinus a = .ok v) : v.type = a.type := by
  unfold evalUnaryMinus at h
  split at h
  case h_1 i _ =>
    split at h
    case isTrue => cases h
    case isFalse =>
      obtain ⟨kind, -, h⟩ := Folded.bind_eq_ok.mp h
      cases hn : i.evaluateCheckedNegation kind <;> simp only [hn] at h <;> try cases h
      exact integerConstantResult_type h
  case h_2 =>
    split at h
    case h_1 =>
      split at h
      case isTrue  => exact floatConstantResult_type h
      case isFalse => cases h
    case h_2 => cases h
  all_goals cases h

theorem evalUnaryTilde_type (h : evalUnaryTilde a = .ok v) : v.type = a.type := by
  unfold evalUnaryTilde at h
  split at h
  case h_1 =>
    obtain ⟨_, -, h⟩ := Folded.bind_eq_ok.mp h
    obtain ⟨_, -, h⟩ := Folded.bind_eq_ok.mp h
    exact integerConstantResult_type h
  case h_2 => cases h

theorem evalUnaryBang_type (h : evalUnaryBang a = .ok v) : v.type = .bool := by
  unfold evalUnaryBang at h
  split at h <;> cases h
  rfl

theorem evalBitwise_type (h : evalBitwise op a b = .ok v) :
    a.type.commonIntegerType b.type = some v.type := by
  unfold evalBitwise at h
  repeat' split at h
  all_goals try cases h
  obtain ⟨_, -, h⟩ := Folded.bind_eq_ok.mp h
  rwa [integerConstantResult_type h]

theorem evalShift_type (h : evalShift op a b = .ok v) : v.type = a.type := by
  unfold evalShift at h
  split at h
  case h_1 x y _ _ =>
    repeat' split at h
    all_goals try cases h
    obtain ⟨_, -, h⟩ := Folded.bind_eq_ok.mp h
    obtain ⟨_, -, h⟩ := Folded.bind_eq_ok.mp h
    obtain ⟨_, -, h⟩ := Folded.bind_eq_ok.mp h
    split at h
    case h_3 =>
      obtain ⟨_, -, h⟩ := Folded.bind_eq_ok.mp h
      exact integerConstantResult_type h
    all_goals cases h
  case h_2 => split at h <;> cases h
  case h_3 => cases h

theorem evalIntegerArithmetic_type (h : evalIntegerArithmetic op x y type kind = .ok v) :
    v.type = type := by
  unfold evalIntegerArithmetic at h
  repeat' split at h
  all_goals first
    | exact integerConstantResult_type h
    | cases h

theorem evalFloatBinaryOperation_type (h : evalFloatBinaryOperation op type kind a b = .ok v) :
    v.type = type := by
  unfold evalFloatBinaryOperation at h
  split at h
  case isTrue => cases h
  case isFalse =>
    split at h
    case h_1 => exact floatConstantResult_type h
    case h_2 => cases h

theorem evalArithmetic_type (h : evalArithmetic op a b = .ok v) :
    a.type.commonNumericType b.type = some v.type := by
  unfold evalArithmetic at h
  repeat' split at h
  all_goals first
    | cases h
    | rwa [evalIntegerArithmetic_type h]
    | rwa [evalFloatBinaryOperation_type h]

theorem evalConstComparison_type (h : evalConstComparison op a b = .ok v) : v.type = .bool := by
  unfold evalConstComparison at h
  repeat' split at h
  all_goals
    cases h
    try rfl

theorem evalTruncatingCast_type (h : evalTruncatingCast target a = .ok v) : v.type = target := by
  unfold evalTruncatingCast at h
  split at h
  case isTrue => cases h
  case isFalse =>
    split at h
    case h_1 =>
      obtain ⟨_, -, h⟩ := Folded.bind_eq_ok.mp h
      cases h
      rfl
    case h_2 => cases h

theorem evalCheckedCast_type (h : evalCheckedCast enums target a = .ok v) : v.type = target := by
  unfold evalCheckedCast castToPointer castToEnum castToInteger castToFloat castToBool at h
  repeat' split at h
  all_goals
    cases h
    try rfl

theorem evalWrappingBinaryCall_type (h : evalWrappingBinaryCall op a b = .ok v) :
    classifyWrappingBinaryTypes a.type b.type = .valid v.type := by
  unfold evalWrappingBinaryCall at h
  split at h
  case h_3 type hc =>
    split at h
    case h_1 =>
      obtain ⟨_, -, h⟩ := Folded.bind_eq_ok.mp h
      rw [hc, integerConstantResult_type h]
    case h_2 => cases h
  all_goals cases h

theorem evalWrappingNegCall_type (h : evalWrappingNegCall a = .ok v) :
    classifyWrappingNegType a.type = .valid v.type := by
  unfold evalWrappingNegCall at h
  split at h
  case h_3 type hc =>
    split at h
    case h_1 =>
      obtain ⟨_, -, h⟩ := Folded.bind_eq_ok.mp h
      rw [hc, integerConstantResult_type h]
    case h_2 => cases h
  all_goals cases h

end Coglet
