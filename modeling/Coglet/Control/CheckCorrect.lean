import Coglet.Control.WellPlaced

namespace Coglet.Control

open Statement

variable {ctx : Context} {s : Statement Unit} {ss : List (Statement Unit)} {cs : List (Option Key × Statement Unit)}
variable {c : CheckState} {labels : Labels} {b : Bool}

namespace CheckState

theorem prefix_report {text : String} : c.errors <+: (c.report text).errors :=
  List.prefix_append ..

theorem errors_report_ne {text : String} : (c.report text).errors ≠ [] := by
  simp [report]

end CheckState

-- What the labels of the cases `cs` add to those before them.
def Labels.extend (labels : Labels) (cs : List (Option Key × Statement Unit)) : Labels where
  hasDefault := labels.hasDefault || cs.any (·.1.isNone)
  values     := labels.values ++ cs.filterMap (·.1)

def Labels.Apart (labels : Labels) (keys : List (Option Key)) : Prop :=
  keys.Nodup ∧ (none ∈ keys → labels.hasDefault = false) ∧ ∀ key ∈ labels.values, some key ∉ keys

section Prefix

theorem checkStatements_prefix (h : ∀ s ∈ ss, ∀ ctx c, c.errors <+: (checkStatement ctx s c).1.errors) :
    c.errors <+: (checkStatements ctx b ss c).1.errors := by
  induction ss generalizing c
  case nil => exact List.prefix_rfl
  case cons s ss hi =>
    rw [List.forall_mem_cons] at h
    refine List.IsPrefix.trans ?_ ((h.1 ..).trans (hi h.2))
    split
    case isTrue => exact CheckState.prefix_report
    case isFalse => exact List.prefix_rfl

theorem checkCases_prefix (h : ∀ p ∈ cs, ∀ ctx c, c.errors <+: (checkStatement ctx p.2 c).1.errors) :
    c.errors <+: (checkCases ctx b cs labels c).1.state.errors := by
  induction cs generalizing c labels
  case nil => exact List.prefix_rfl
  case cons p cs hi =>
    rw [List.forall_mem_cons] at h
    rw [checkCases]
    have hs := h.1 ctx { c with reachable := b, errors := c.errors ++ (labels.check p.1).2 }
    exact (List.prefix_append ..).trans (hs.trans (hi h.2))

-- Errors are only added.
theorem checkStatement_prefix : c.errors <+: (checkStatement ctx s c).1.errors := by
  induction s using Statement.ind generalizing ctx c
  case ret =>
    simp only [checkStatement, checkReturn]
    split_ifs <;> first | exact CheckState.prefix_report | exact List.prefix_rfl
  case leave | next =>
    simp only [checkStatement, checkBreak, checkContinue]
    split_ifs <;> first | exact CheckState.prefix_report | exact List.prefix_rfl
  case defer hs =>
    simp only [checkStatement]
    split_ifs
    case pos | pos => exact CheckState.prefix_report
    case neg => exact hs
  case block hs => exact checkStatements_prefix fun s hm ctx c => hs s hm
  case cond t e ht he =>
    simp only [checkStatement]
    exact ht.trans (he (c := { (checkStatement ctx t c).1 with reachable := c.reachable }))
  case compileIf ht he =>
    simp only [checkStatement]
    split
    case h_1 => exact ht
    case h_2 =>
      split
      case isTrue => exact List.prefix_rfl
      case isFalse => exact he
    case h_3 | h_4 => exact CheckState.prefix_report
  case loop hs | steps hs =>
    simp only [checkStatement]
    exact hs (c := { c with hasBreakFlow := false })
  case switch hs => exact checkCases_prefix fun p hm ctx c => hs p hm
  all_goals exact List.prefix_rfl

theorem errors_nil (h : (checkStatement ctx s c).1.errors = []) : c.errors = [] :=
  List.prefix_nil.mp (h ▸ checkStatement_prefix)

theorem checkStatements_nil (h : (checkStatements ctx b ss c).1.errors = []) : c.errors = [] :=
  List.prefix_nil.mp (h ▸ checkStatements_prefix fun _ _ _ _ => checkStatement_prefix)

theorem checkCases_nil (h : (checkCases ctx b cs labels c).1.state.errors = []) : c.errors = [] :=
  List.prefix_nil.mp (h ▸ checkCases_prefix fun _ _ _ _ => checkStatement_prefix)

end Prefix

namespace CheckState

-- The state behind a statement that can be reached.
def behind (c : CheckState) (completes breaks : Bool) : CheckState :=
  { c with reachable := completes, hasBreakFlow := c.hasBreakFlow || breaks }

theorem behind_eq_self (hc : c.reachable) : c.behind true false = c := by
  obtain ⟨_, _, _⟩ := c
  simp_all [behind]

end CheckState

namespace Labels

theorem check_eq {label : Option Key} {keys : List (Option Key)} (h : labels.Apart (label :: keys)) :
    (labels.check label).2 = [] ∧ (labels.check label).1.Apart keys := by
  obtain ⟨hn, hd, hv⟩ := h
  have ⟨hl, hk⟩ := List.nodup_cons.mp hn
  cases label
  case none =>
    refine ⟨by simp [check, hd], hk, fun h => absurd h hl, fun key hm h => ?_⟩
    exact hv key hm (List.mem_cons_of_mem _ h)
  case some key =>
    have hm : key ∉ labels.values := fun hm => hv key hm List.mem_cons_self
    simp only [check, hm, if_false]
    refine ⟨trivial, hk, fun h => hd (List.mem_cons_of_mem _ h), fun k hm h => ?_⟩
    cases List.mem_append.mp hm
    case inl hm => exact hv k hm (List.mem_cons_of_mem _ h)
    case inr hm => exact hl (List.mem_singleton.mp hm ▸ h)

theorem extend_check {label : Option Key} (h : (labels.check label).2 = []) :
    (labels.check label).1.extend cs = labels.extend ((label, s) :: cs) := by
  cases label
  case none => simp [check, extend]
  case some key =>
    have hm : key ∉ labels.values := by
      intro hm
      simp [check, hm] at h
    simp [check, extend, hm]

theorem apart_cons {label : Option Key} {keys : List (Option Key)} (hc : (labels.check label).2 = [])
    (h : (labels.check label).1.Apart keys) : labels.Apart (label :: keys) := by
  obtain ⟨hn, hd, hv⟩ := h
  cases label
  case none =>
    have hl : none ∉ keys := fun h => Bool.noConfusion (hd h)
    refine ⟨List.nodup_cons.mpr ⟨hl, hn⟩, fun _ => ?_, fun key hk h => ?_⟩
    case refine_1 => simpa [check] using hc
    case refine_2 => exact hv key hk ((List.mem_cons.mp h).resolve_left nofun)
  case some key =>
    have hm : key ∉ labels.values := by
      intro hm
      simp [check, hm] at hc
    simp only [check, hm, if_false] at hd hv
    have hl : some key ∉ keys := hv key (List.mem_append_right _ List.mem_cons_self)
    refine ⟨List.nodup_cons.mpr ⟨hl, hn⟩, fun h => hd ((List.mem_cons.mp h).resolve_left nofun), fun k hk h => ?_⟩
    cases List.mem_cons.mp h
    case inl h => exact hm (Option.some.inj h ▸ hk)
    case inr h => exact hv k (List.mem_append_left _ hk) h

theorem apart_of_nodup {keys : List (Option Key)} (h : keys.Nodup) : ({} : Labels).Apart keys :=
  ⟨h, fun _ => rfl, nofun⟩

end Labels

section WellPlaced

theorem checkStatements_of_wellPlaced (hs : ∀ s ∈ ss, ∀ c : CheckState, s.WellPlaced ctx → c.reachable →
      checkStatement ctx s c = (c.behind s.completes s.breaks, s.mark))
    (hw : AllWellPlaced ctx ss) (hc : c.reachable) :
    checkStatements ctx b ss c = (c.behind (completesAll ss) (breaksAny ss), markAll ss) := by
  induction ss generalizing c
  case nil => simp [checkStatements, completesAll, breaksAny, markAll, c.behind_eq_self hc]
  case cons s ss hi =>
    rw [List.forall_mem_cons] at hs
    obtain ⟨hw, hr, hws⟩ := hw
    simp only [checkStatements, hc, Bool.not_true, Bool.and_false, Bool.false_eq_true, if_false, hs.1 c hw hc]
    cases ss
    case nil => simp [checkStatements, completesAll, breaksAny, markAll]
    case cons =>
      have hr := hr (List.cons_ne_nil _ _)
      rw [hi hs.2 hws hr]
      simp [completesAll, breaksAny, markAll, hr, CheckState.behind, Bool.or_assoc]

theorem checkCases_of_wellPlaced (hs : ∀ p ∈ cs, ∀ c : CheckState, p.2.WellPlaced ctx → c.reachable →
      checkStatement ctx p.2 c = (c.behind p.2.completes p.2.breaks, p.2.mark))
    (hw : CasesWellPlaced ctx cs) (hl : labels.Apart (cs.map (·.1))) :
    checkCases ctx true cs labels c =
      ({ state := c.behind (completesCase cs) (breaksCase cs), labels := labels.extend cs }, markCases cs) := by
  induction cs generalizing c labels
  case nil => simp [checkCases, completesCase, breaksCase, markCases, CheckState.behind, Labels.extend]
  case cons p cs hi =>
    obtain ⟨label, s⟩ := p
    rw [List.forall_mem_cons] at hs
    have ⟨he, hl⟩ := Labels.check_eq hl
    simp only [checkCases, he, List.append_nil]
    rw [hs.1 _ hw.1 rfl, hi hs.2 hw.2 hl, Labels.extend_check (s := s) he]
    simp [completesCase, breaksCase, markCases, CheckState.behind, Bool.or_assoc]

-- A well-placed statement is accepted, and the checker computes which ends of it can be reached.
theorem checkStatement_of_wellPlaced (hw : s.WellPlaced ctx) (hc : c.reachable) :
    checkStatement ctx s c = (c.behind s.completes s.breaks, s.mark) := by
  induction s using Statement.ind generalizing ctx c
  case absent | declaration | vars | action | asm =>
    simp [checkStatement, completes, breaks, mark, c.behind_eq_self hc, CheckState.facts, facts, hc]
  case ret v =>
    obtain ⟨hd, hf, hv⟩ := hw
    cases v <;>
      simp_all [checkStatement, checkReturn, completes, breaks, mark, CheckState.behind, CheckState.facts, facts,
        Nat.ne_of_gt hf]
  case leave | next =>
    obtain ⟨hd, hl⟩ := hw
    simp [checkStatement, checkBreak, checkContinue, CheckState.recordBreak, CheckState.recordContinue, completes,
      breaks, mark, CheckState.behind, CheckState.facts, facts, hd, Nat.ne_of_gt hl, hc]
  case defer s hs =>
    obtain ⟨hf, hd, hw⟩ := hw
    have hb : s.breaks = false := breaks_eq_false hw (Nat.succ_pos _)
    simp [checkStatement, Nat.ne_of_gt hf, hd, hs hw hc, completes, breaks, mark, CheckState.behind, CheckState.facts,
      facts, hc, hb]
  case block hs =>
    rw [checkStatement, hc, checkStatements_of_wellPlaced (fun s hm c => hs s hm) hw hc]
    simp [completes, breaks, mark, CheckState.behind, CheckState.facts, facts]
  case cond t e ht he =>
    simp only [checkStatement, ht hw.1 hc]
    rw [he hw.2 (by exact hc)]
    simp [completes, breaks, mark, CheckState.behind, CheckState.facts, facts, Bool.or_assoc]
  case compileIf e ht he =>
    obtain ⟨rfl, hw⟩ | ⟨rfl, hw⟩ := wellPlaced_compileIf hw
    case inl =>
      simp [checkStatement, ht hw hc, completes, breaks, mark, Expression.constBoolValue, CheckState.behind,
        CheckState.facts, facts, compileTimeSelection]
    case inr =>
      simp only [checkStatement]
      split
      case isTrue ha =>
        cases eq_absent ha
        simp [completes, breaks, mark, Expression.constBoolValue, c.behind_eq_self hc, CheckState.facts, facts,
          compileTimeSelection, isAbsent, hc]
      case isFalse ha =>
        simp [he hw hc, completes, breaks, mark, Expression.constBoolValue, CheckState.behind, CheckState.facts, facts,
          compileTimeSelection, ha]
  case loop hs =>
    rw [checkStatement, hs hw (c := { c with hasBreakFlow := false }) hc]
    simp [completes, breaks, mark, CheckState.behind, CheckState.afterLoop, CheckState.facts, facts, hc]
  case steps hs =>
    rw [checkStatement, hs hw (c := { c with hasBreakFlow := false }) hc]
    simp [completes, breaks, mark, CheckState.behind, CheckState.afterLoop, CheckState.facts, facts, hc]
  case switch hs =>
    obtain ⟨hl, hw⟩ := hw
    rw [checkStatement, hc, checkCases_of_wellPlaced (fun p hm c => hs p hm) hw (Labels.apart_of_nodup hl)]
    simp [completes, breaks, mark, CheckState.behind, CheckState.facts, facts, isExhaustive, Labels.extend,
      Bool.or_comm]

theorem allWellPlaced_of_accepted (hs : ∀ s ∈ ss, ∀ c : CheckState, c.reachable →
      (checkStatement ctx s c).1.errors = [] → s.WellPlaced ctx)
    (hc : c.reachable) (h : (checkStatements ctx true ss c).1.errors = []) : AllWellPlaced ctx ss := by
  induction ss generalizing c
  case nil => trivial
  case cons s ss hi =>
    rw [List.forall_mem_cons] at hs
    simp only [checkStatements, hc, Bool.not_true, Bool.and_false, Bool.false_eq_true, if_false] at h
    have hw := hs.1 c hc (checkStatements_nil h)
    rw [checkStatement_of_wellPlaced hw hc] at h
    cases hb : s.completes
    case true =>
      rw [hb] at h
      exact ⟨hw, fun _ => hb, hi hs.2 rfl h⟩
    case false =>
      cases ss
      case nil => exact ⟨hw, absurd rfl, trivial⟩
      case cons =>
        -- The next statement is reported.
        simp only [checkStatements, CheckState.behind, hb, Bool.not_false, Bool.and_self, if_true] at h
        exact absurd (errors_nil (checkStatements_nil h)) CheckState.errors_report_ne

theorem casesWellPlaced_of_accepted (hs : ∀ p ∈ cs, ∀ c : CheckState, c.reachable →
      (checkStatement ctx p.2 c).1.errors = [] → p.2.WellPlaced ctx)
    (h : (checkCases ctx true cs labels c).1.state.errors = []) :
    labels.Apart (cs.map (·.1)) ∧ CasesWellPlaced ctx cs := by
  induction cs generalizing c labels
  case nil => exact ⟨⟨List.nodup_nil, nofun, nofun⟩, trivial⟩
  case cons p cs hi =>
    rw [List.forall_mem_cons] at hs
    simp only [checkCases] at h
    have ⟨hl, hw⟩ := hi hs.2 h
    have he := checkCases_nil h
    have ⟨_, hc⟩ := List.append_eq_nil_iff.mp (errors_nil he)
    exact ⟨Labels.apart_cons hc hl, hs.1 _ rfl he, hw⟩

-- Nothing else is accepted.
theorem wellPlaced_of_accepted (hc : c.reachable) (h : (checkStatement ctx s c).1.errors = []) :
    s.WellPlaced ctx := by
  induction s using Statement.ind generalizing ctx c
  case ret v =>
    simp only [checkStatement, checkReturn] at h
    split_ifs at h
    case neg hd hf hn hv =>
      refine ⟨Nat.eq_zero_of_not_pos hd, Nat.pos_of_ne_zero hf, ?_⟩
      cases v <;> simp_all
    all_goals exact absurd h CheckState.errors_report_ne
  case leave | next =>
    simp only [checkStatement, checkBreak, checkContinue] at h
    split_ifs at h
    case neg hd hl => exact ⟨Nat.eq_zero_of_not_pos hd, Nat.pos_of_ne_zero hl⟩
    all_goals exact absurd h CheckState.errors_report_ne
  case defer hs =>
    simp only [checkStatement] at h
    split_ifs at h
    case neg hf hd => exact ⟨Nat.pos_of_ne_zero hf, Nat.eq_zero_of_not_pos hd, hs hc h⟩
    all_goals exact absurd h CheckState.errors_report_ne
  case block hs => exact allWellPlaced_of_accepted (fun s hm c hc => hs s hm hc) hc (hc ▸ h)
  case cond t e ht he =>
    simp only [checkStatement] at h
    let c' := { (checkStatement ctx t c).1 with reachable := c.reachable }
    exact ⟨ht hc (errors_nil (c := c') h), he (c := c') hc h⟩
  case compileIf ht he =>
    simp only [checkStatement] at h
    split at h
    case h_1 => exact ht hc h
    case h_2 =>
      split at h
      case isTrue ha => exact eq_absent ha ▸ trivial
      case isFalse => exact he hc h
    all_goals exact absurd h CheckState.errors_report_ne
  case loop hs | steps hs => exact hs (c := { c with hasBreakFlow := false }) hc h
  case switch hs =>
    simp only [checkStatement, hc] at h
    have ⟨hl, hw⟩ := casesWellPlaced_of_accepted (fun p hm c hc => hs p hm hc) h
    exact ⟨hl.1, hw⟩
  all_goals trivial

end WellPlaced

end Coglet.Control
