import Coglet.Const.Refinement

namespace Coglet

-- Names with the values of well-typed constants.
structure Environment (κ : Type) where
  values    : κ → Option ConstValue
  wellTyped : ∀ {c v}, values c = some v → v.WellTyped

def Environment.meanings (env : Environment κ) (c : κ) : Option Meaning :=
  (env.values c).map ConstValue.meaning

-- The evaluation of a constant expression reaches a negation of the untyped integer `-2 ^ 63`.
inductive NegatesMinimum (ctx : Context κ) (env : κ → Option Meaning) (checked : Bool) : Expr → Prop
  | here : denote ctx env checked e = some negatedMinimum → NegatesMinimum ctx env checked (.unary .minus e)
  | unary : NegatesMinimum ctx env checked e → NegatesMinimum ctx env checked (.unary op e)
  | logicalLeft : NegatesMinimum ctx env checked l → NegatesMinimum ctx env checked (.logical op l r)
  | logicalRight :
    denote ctx env checked l = some m → m.payload = .bool b → op.decidedBy b = false →
    NegatesMinimum ctx env checked r → NegatesMinimum ctx env checked (.logical op l r)
  | binaryLeft : NegatesMinimum ctx env checked l → NegatesMinimum ctx env checked (.binary op l r)
  | binaryRight :
    denote ctx env checked l = some m → NegatesMinimum ctx env checked r →
    NegatesMinimum ctx env checked (.binary op l r)
  | checkedCast : NegatesMinimum ctx env checked e → NegatesMinimum ctx env checked (.cast .checked t e)
  | truncatingCast :
    NegatesMinimum ctx env checked e → NegatesMinimum ctx env checked (.cast .truncating t e)
  | wrappingLeft :
    NegatesMinimum ctx env checked l → NegatesMinimum ctx env checked (.wrappingBinary op l r)
  | wrappingRight :
    denote ctx env checked l = some m → NegatesMinimum ctx env checked r →
    NegatesMinimum ctx env checked (.wrappingBinary op l r)
  | wrappingNeg : NegatesMinimum ctx env checked e → NegatesMinimum ctx env checked (.wrappingNeg e)

-- How an outcome of the evaluator relates to the meaning of an expression, given the condition under
-- which the evaluator aborts.
def Agrees (o : Demand.Outcome ConstValue) (m : Option Meaning) (aborts : Prop) : Prop :=
  match o with
  | .value v => v.WellTyped ∧ m = some v.meaning ∧ ¬aborts
  | .failed  => m = none ∧ ¬aborts
  | .aborted => aborts

namespace Agrees

theorem value (hw : ConstValue.WellTyped v) (hm : m = some v.meaning) (hp : ¬p) :
    Agrees (.value v) m p :=
  ⟨hw, hm, hp⟩

theorem failed (hm : m = none) (hp : ¬p) : Agrees .failed m p :=
  ⟨hm, hp⟩

theorem lift {f : Folded ConstValue} (hf : f.Refines m) (hp : ¬p) (env : κ → Option ConstValue) :
    Agrees ((f.lift : Demand κ ConstValue Diagnostic ConstValue).outcome env) m p := by
  cases f
  case ok v      => exact ⟨hf.left, hf.right, hp⟩
  case error     => exact ⟨hf, hp⟩
  case assertion => exact hf.elim

-- An operand is evaluated first: its failure and its abort are those of the whole expression.
theorem bind {f : ConstValue → Demand.Outcome ConstValue} {g : Meaning → Option Meaning}
    (h : Agrees o m p) (ha : p → q) (hf : m = none → ¬p → ¬q)
    (hv : ∀ v, v.WellTyped → m = some v.meaning → ¬p → Agrees (f v) (g v.meaning) q) :
    Agrees (o.bind f) (m.bind g) q := by
  cases o
  case aborted => exact ha h
  case failed  => exact .failed (by simp [h.left]) (hf h.left h.right)
  case value v =>
    rw [h.right.left]
    exact hv v h.left h.right.left h.right.right

end Agrees

section Evaluator

variable {ctx : Context κ} {env : Environment κ} {checked : Bool}

theorem require_agrees (hp : ¬p) :
    Agrees ((Demand.require c : Demand κ ConstValue Diagnostic ConstValue).outcome env.values)
      (env.meanings c) p := by
  rw [Demand.outcome_require]
  cases h : env.values c
  case none   => exact .failed (by simp [Environment.meanings, h]) hp
  case some v => exact .value (env.wellTyped h) (by simp [Environment.meanings, h]) hp

-- A natural number that fits a machine word is a well-typed constant of every type that has room for it.
theorem wellTyped_word (w : BitVec 64) (ht : type = .untypedInt ∨ type = .u64) :
    ConstValue.WellTyped ⟨type, .int (.make w false)⟩ := by
  have hl := w.isLt
  refine .int (fun _ => ?_) (by rcases ht with rfl | rfl <;> rfl) IntegerValue.make_canonical
  rw [IntegerValue.fitsType_eq_contains IntegerValue.make_canonical, IntegerValue.make_toInt]
  rcases ht with rfl | rfl <;>
    simp [Ty.kind, TypeKind.contains, TypeKind.integerTypeInfo, TwosComplement.InRange] <;> omega

theorem meaning_word (w : BitVec 64) :
    ConstValue.meaning ⟨type, .int (.make w false)⟩ = .ofInt type w.toNat := by
  simp [ConstValue.meaning, Constant.map, Meaning.ofInt, IntegerValue.make_toInt]

theorem evalUnary_agrees (hw : ConstValue.WellTyped v)
    (hd : denote ctx env.meanings checked e = some v.meaning)
    (hn : ¬NegatesMinimum ctx env.meanings checked e) (op : UnaryOperation) :
    Agrees ((evalUnary op v).lift.outcome env.values)
      (Meaning.unary op v.meaning) (NegatesMinimum ctx env.meanings checked (.unary op e)) := by
  have hi (hm : v.meaning = negatedMinimum → op ≠ .minus) :
      ¬NegatesMinimum ctx env.meanings checked (.unary op e) := by
    intro h
    cases h
    case here h  => exact hm (Option.some.inj (hd.symm.trans h)) rfl
    case unary h => exact hn h
  cases op
  case tilde => exact .lift (evalUnaryTilde_refines hw) (hi (by simp)) _
  case bang  => exact .lift evalUnaryBang_refines (hi (by simp)) _
  case minus =>
    have ⟨ha, hr⟩ := evalUnaryMinus_spec hw
    by_cases hm : v.meaning = negatedMinimum
    case pos =>
      simp only [evalUnary, ha hm, Folded.lift, Demand.outcome_abort]
      exact NegatesMinimum.here (hd.trans (congrArg some hm))
    case neg => exact .lift (hr hm) (hi (absurd · hm)) _

theorem resolve_agrees {t : TypeRef} {f : Ty → ConstValue → Folded ConstValue}
    {g : Ty → Meaning → Option Meaning} (hp : ¬p)
    (h : ∀ t : SourceType, (f t.type v).Refines (g t.type v.meaning)) :
    Agrees ((t.resolve >>= fun t => (f t v).lift).outcome env.values)
      (t.toOption.bind fun t => g t.type v.meaning) p := by
  cases t
  case error => exact .failed rfl hp
  case ok t  => exact .lift (h t) hp _

theorem logical_agrees {l r : Expr} {v : ConstValue} (hd : denote ctx env.meanings checked l = some v.meaning)
    (hn : ¬NegatesMinimum ctx env.meanings checked l)
    (hr : Agrees ((evalConstExpr ctx checked r).outcome env.values)
      (denote ctx env.meanings checked r) (NegatesMinimum ctx env.meanings checked r))
    (op : LogicalOperation) :
    Agrees (Demand.outcome env.values (
        match v.payload with
        | .bool b =>
          if op.decidedBy b then pure (boolConstant b)
          else do
            match (← evalConstExpr ctx checked r).payload with
            | .bool b' => pure (boolConstant (op.apply b b'))
            | _        => .error "operands must be boolean constants"
        | _ => .error "operands must be boolean constants"))
      (match v.meaning.payload with
        | .bool b =>
          if op.decidedBy b then some (boolConstant b)
          else do
            match (← denote ctx env.meanings checked r).payload with
            | .bool b' => some (boolConstant (op.apply b b'))
            | _        => none
        | _ => none)
      (NegatesMinimum ctx env.meanings checked (.logical op l r)) := by
  obtain ⟨type, payload⟩ := v
  cases payload
  case bool b =>
    simp only [ConstValue.meaning, Constant.map]
    by_cases hb : op.decidedBy b
    case pos =>
      simp only [hb, ite_true]
      refine .value .bool rfl fun h => ?_
      cases h
      case logicalLeft h          => exact hn h
      case logicalRight hp hb' hm _ =>
        obtain rfl := Option.some.inj (hd.symm.trans hm)
        obtain ⟨⟩ := hp
        simp [hb] at hb'
    case neg =>
      have hb : op.decidedBy b = false := by simpa using hb
      simp only [hb, Bool.false_eq_true, ite_false, Demand.outcome_bind]
      have hp (hn' : ¬NegatesMinimum ctx env.meanings checked r) :
          ¬NegatesMinimum ctx env.meanings checked (.logical op l r) := by
        intro h
        cases h
        case logicalLeft h        => exact hn h
        case logicalRight _ _ _ h => exact hn' h
      refine hr.bind (.logicalRight hd rfl hb) (fun _ => hp) fun u _ _ hn' => ?_
      obtain ⟨type, payload⟩ := u
      cases payload
      case bool => exact .value .bool rfl (hp hn')
      all_goals exact .failed rfl (hp hn')
  all_goals
    refine .failed rfl fun h => ?_
    cases h
    case logicalLeft h        => exact hn h
    case logicalRight hp _ hm _ =>
      obtain rfl := Option.some.inj (hd.symm.trans hm)
      contradiction

-- By structural induction: an abort inside of an operand is an abort of the whole expression, and
-- operands that are not reached do not contribute.
theorem evalConstExpr_agrees (e : Expr) :
    Agrees ((evalConstExpr ctx checked e).outcome env.values)
      (denote ctx env.meanings checked e) (NegatesMinimum ctx env.meanings checked e) := by
  induction e
  case number m => exact .value (wellTyped_word m (.inl rfl)) (by simp [denote, meaning_word]) nofun
  case float f  => exact .value ⟨nofun, fun _ => ⟨f, rfl⟩, nofun⟩ rfl nofun
  case bool b   => exact .value .bool rfl nofun
  case null     => exact .value ⟨nofun, nofun, nofun⟩ rfl nofun
  case ident name =>
    simp only [evalConstExpr, denote]
    cases ctx.lookup name
    case none => exact .failed rfl nofun
    case some symbol =>
      cases symbol
      case constant => exact require_agrees nofun
      all_goals exact .failed rfl nofun
  case field path =>
    simp only [evalConstExpr, denote]
    cases h : ctx.lookupField path
    case target w => exact .value (wellTyped_word w (.inr rfl)) (by simp [meaning_word]) nofun
    case enumMember i v =>
      have ⟨name, hm⟩ := ctx.isMember h
      exact .value ⟨nofun, nofun, by rintro _ ⟨⟩; exact (ctx.enums i).canonical _ hm⟩ rfl nofun
    case constant => exact require_agrees nofun
    all_goals exact .failed rfl nofun
  case unary op e hi =>
    simp only [evalConstExpr, denote, Demand.outcome_bind]
    refine hi.bind .unary (fun hm hn h => ?_) fun v hw hd hn => evalUnary_agrees hw hd hn op
    cases h
    case here h  => simp [hm] at h
    case unary h => exact hn h
  case logical op l r hl hr =>
    simp only [evalConstExpr, denote, Demand.outcome_bind]
    refine hl.bind .logicalLeft (fun hm hn h => ?_) fun v _ hd hn => logical_agrees hd hn hr op
    cases h
    case logicalLeft h    => exact hn h
    case logicalRight h _ => simp [hm] at h
  case binary op l r hl hr =>
    simp only [evalConstExpr, denote, Demand.outcome_bind]
    refine hl.bind .binaryLeft (fun hm hn h => ?_) fun a ha hd hn => ?_
    case refine_1 =>
      cases h
      case binaryLeft h    => exact hn h
      case binaryRight h _ => simp [hm] at h
    case refine_2 =>
      have hp (hn' : ¬NegatesMinimum ctx env.meanings checked r) :
          ¬NegatesMinimum ctx env.meanings checked (.binary op l r) := by
        intro h
        cases h
        case binaryLeft h    => exact hn h
        case binaryRight _ h => exact hn' h
      exact hr.bind (.binaryRight hd) (fun _ => hp)
        fun b hb _ hn' => .lift (evalBinary_refines ha hb op) (hp hn') _
  case cast kind t e hi =>
    cases kind
    case checked =>
      simp only [evalConstExpr, denote, Demand.outcome_bind]
      refine hi.bind .checkedCast (fun _ hn h => ?_) fun v hv _ hn => ?_
      case refine_1 => cases h with | checkedCast h => exact hn h
      case refine_2 =>
        rw [← Demand.outcome_bind]
        exact resolve_agrees (fun h => by cases h with | checkedCast h => exact hn h)
          fun t => evalCheckedCast_refines hv t.notUntyped
    case truncating =>
      simp only [evalConstExpr, denote, Demand.outcome_bind]
      refine hi.bind .truncatingCast (fun _ hn h => ?_) fun v hv _ hn => ?_
      case refine_1 => cases h with | truncatingCast h => exact hn h
      case refine_2 =>
        rw [← Demand.outcome_bind]
        exact resolve_agrees (fun h => by cases h with | truncatingCast h => exact hn h)
          fun t => evalTruncatingCast_refines hv
    case reinterpret => exact .failed rfl nofun
  case wrappingBinary op l r hl hr =>
    simp only [evalConstExpr, denote, Demand.outcome_bind]
    refine hl.bind .wrappingLeft (fun hm hn h => ?_) fun a ha hd hn => ?_
    case refine_1 =>
      cases h
      case wrappingLeft h    => exact hn h
      case wrappingRight h _ => simp [hm] at h
    case refine_2 =>
      have hp (hn' : ¬NegatesMinimum ctx env.meanings checked r) :
          ¬NegatesMinimum ctx env.meanings checked (.wrappingBinary op l r) := by
        intro h
        cases h
        case wrappingLeft h    => exact hn h
        case wrappingRight _ h => exact hn' h
      exact hr.bind (.wrappingRight hd) (fun _ => hp)
        fun b hb _ hn' => .lift (evalWrappingBinaryCall_refines ha hb op) (hp hn') _
  case wrappingNeg e hi =>
    simp only [evalConstExpr, denote, Demand.outcome_bind]
    have hp (hn : ¬NegatesMinimum ctx env.meanings checked e) :
        ¬NegatesMinimum ctx env.meanings checked (.wrappingNeg e) := by
      intro h
      cases h with | wrappingNeg h => exact hn h
    exact hi.bind .wrappingNeg (fun _ => hp)
      fun v hv _ hn => .lift (evalWrappingNegCall_refines hv) (hp hn) _
  case layout b t =>
    simp only [evalConstExpr, denote]
    cases checked <;> cases t <;> try exact .failed rfl nofun
    case true.ok t =>
      simp only [Except.toOption, Option.bind_eq_bind, Option.bind_some]
      cases h : ctx.layout b t.type
      case error => exact .failed (by simp) nofun
      case ok w  => exact .value (wellTyped_word w (.inr rfl)) (by simp [meaning_word, guard]) nofun
  all_goals exact .failed rfl nofun

-- The evaluator returns a value or an error exactly if it does not get to negate the minimum.
theorem evalConstExpr_returns_iff (ctx : Context κ) (env : Environment κ) (checked : Bool) (e : Expr) :
    (evalConstExpr ctx checked e).outcome env.values ≠ .aborted ↔
    ¬NegatesMinimum ctx env.meanings checked e := by
  have h : Agrees _ _ (NegatesMinimum ctx env.meanings checked e) := evalConstExpr_agrees e
  cases ho : (evalConstExpr ctx checked e).outcome env.values <;> rw [ho] at h
  case value   => simpa using h.right.right
  case failed  => simpa using h.right
  case aborted => simpa [Agrees] using h

end Evaluator

-- A context without any names.
def Context.empty : Context Empty where
  lookup _      := none
  lookupField _ := .unresolved ""
  enums _       := { name := "", backing := .s32, members := [], canonical := by simp }
  structName _  := ""
  layout _ _    := .error ""
  isMember      := nofun

-- `-(-9223372036854775808)`
theorem evalConstExpr_aborts :
    ¬∀ e : Expr, (evalConstExpr .empty false e).outcome (nofun : Empty → Option ConstValue) ≠ .aborted :=
  fun h => h (.unary .minus (.unary .minus (.number 9223372036854775808#64))) rfl

end Coglet
