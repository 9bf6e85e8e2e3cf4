import Coglet.Control.Agreement
import Coglet.Control.TraceStatement

open scoped Computability Matrix

namespace Coglet.Control

open Outcome BlockBuilder Graph Behaviour Statement

variable {σ σ' : LowerState} {r : Behaviour} {depth : Nat}

-- What happens in the lowered code from its first block until it returns.
def LoweredFunction.traces (f : LoweredFunction) : Language Event :=
  events.paths f.blocks 0

-- What happens in a function body until its end is reached or it returns.
def bodyTraces (body : List (Statement Unit)) : Language Event :=
  (Statement.block () body).runs .normal + (Statement.block () body).runs .return

theorem follows_entry {blocks : Blocks} {l : Language Event} (h : Unfolds (tail events blocks entryState.graph) fun n =>
    r ⬝ᵥ entryState.after (events.upTo blocks n) l) : events.paths blocks 0 = r .normal * l + r .return := by
  have hu : Unfolds (fun n => events.upTo blocks n 0) fun _ => r .normal * l + r .return := by
    refine BlockTraces.unfolds_upTo.trans (h.trans (.of_eq (funext fun n => ?_)))
    rw [dotProduct_eq, after_normal, after_of_ne (by decide), after_of_ne (by decide), after_of_ne (by decide)]
    simp [LowerState.jump, entryState, undeferred]
  exact hu.iSup_eq.trans ciSup_const

theorem finish_traces {returnsVoid : Bool} (ho : σ.isOpen → returnsVoid) (hc : ¬σ.isOpen → r .normal = 0)
    (ht : ∀ blocks, Within σ.graph.blocks blocks → Unfolds (tail events blocks entryState.graph) fun n =>
      r ⬝ᵥ entryState.after (events.upTo blocks n) (tail events blocks σ.graph n)) :
    Yields (finishVoidFunctionIfNeeded returnsVoid σ) fun f => f.traces = r .normal + r .return := by
  unfold finishVoidFunctionIfNeeded
  split
  case isTrue h =>
    rw [ho h, if_pos rfl]
    refine Yields.bind (onGraph_yields ((setTerminator_yields h).and_ensures setTerminator_ensures)) fun σ' hσ => ?_
    obtain ⟨g, ⟨-, hg⟩, rfl⟩ := hσ
    refine .ok ?_
    have ht := (ht _ hg.grows.within).trans (unfolds_after (hg.tail _ .refl))
    simp only [leave_ret] at ht
    exact (follows_entry ht).trans (by rw [mul_one])
  case isFalse h =>
    refine .ok ?_
    have ht := ht _ .refl
    simp only [dotProduct_after (hc h) 0] at ht
    exact (follows_entry ht).trans (by rw [hc h, zero_mul])

section Module

variable {items : List (Statement Unit)} {s : Statement Unit} {c : CheckState}

-- What happens while a module is initialized. Items without code that runs then are passed over.
def itemTraces (items : List (Statement Unit)) : Language Event :=
  ((items.filter nodeIsRuntimeModuleItem).map (·.runs .normal)).prod

theorem itemTraces_cons : itemTraces (s :: items) =
    (if nodeIsRuntimeModuleItem s then s.runs .normal else 1) * itemTraces items := by
  unfold itemTraces
  rw [List.filter_cons]
  split
  case isTrue  => rw [List.map_cons, List.prod_cons]
  case isFalse => rw [one_mul]

theorem allows_top {o : Ending} (h : o ≠ .normal) : ¬Context.allows {} o := by
  cases o
  case normal => exact absurd rfl h
  all_goals exact fun ha => Nat.lt_irrefl 0 ha.2

theorem lowerModuleItem_does (hw : s.WellPlaced {}) (ho : σ.isOpen)
    (hr : Ready (lower (depth + 1)) {} σ) : Ensures (lowerModuleItem (depth + 2) s.mark σ) fun σ' =>
      Does (if nodeIsRuntimeModuleItem s then s.runs .normal else 1) σ σ' ∧ Ready (lower (depth + 1)) {} σ' := by
  unfold lowerModuleItem
  rw [nodeIsRuntimeModuleItem_mark]
  split
  case isTrue =>
    have hs : s.Scoped := scoped_of_wellPlaced hw (allows_top nofun)
    have hu : RunsUndeferred Unit (lower (depth + 1)) := runsUndeferred_lowerStatement
    refine (faithful (fun _ => hu) hw hs σ ho hr).mono fun σ' h => ⟨?_, h.ready (fun _ => hu) hw hs hr⟩
    refine h.follows.does ?_ fun o hn => runs_eq_zero hw (allows_top hn)
    rw [h.deferred, deferrals_eq_nil hw (allows_top nofun)]
    rfl
  case isFalse => exact .ok ⟨.refl ho, hr⟩

-- Where an item does not complete the code ends, and nothing more happens.
theorem lowerModuleItems_does (ho : σ.isOpen) (hf : Fits (lower (depth + 1)) {} σ) (hr : Ready (lower (depth + 1)) {} σ)
    (hc : c.reachable) (he : (checkStatements {} false items c).1.errors = []) (hn : NothingBehindEnd items) :
    Yields (lowerModuleItems (depth + 2) (checkStatements {} false items c).2 σ) fun σ₂ =>
      ∃ σ₁, Does (itemTraces items) σ σ₁ ∧ σ₂.graph = σ₁.graph := by
  induction items generalizing σ c
  case nil => exact .ok ⟨σ, .refl ho, rfl⟩
  case cons s items hi =>
    simp only [checkStatements, Bool.false_and, Bool.false_eq_true, if_false] at he ⊢
    have hw := wellPlaced_of_accepted hc (checkStatements_nil he)
    rw [checkStatement_of_wellPlaced hw hc] at he ⊢
    rw [nothingBehindEnd_cons] at hn
    rw [itemTraces_cons]
    refine ((lowerModuleItem_open hw ho hf).and_ensures (lowerModuleItem_does hw ho hr)).bind fun σ₁ h₁ => ?_
    obtain ⟨⟨-, -, hf₁, ho₁⟩, hd₁, hr₁⟩ := h₁
    by_cases hs : s.completes
    case pos =>
      refine (hi (ho₁.mpr hs) hf₁ hr₁ hs he hn.1).mono fun σ₃ h₃ => ?_
      obtain ⟨σ₂, hd₂, hg₂⟩ := h₃
      exact ⟨σ₂, hd₁.trans hd₂, hg₂⟩
    case neg =>
      have hc₁ := mt ho₁.mp hs
      refine (lowerModuleItems_closed hc₁ he (hn.2.resolve_left hs)).mono fun σ₂ h₂ => ?_
      exact ⟨σ₁, hd₁.stop hc₁, h₂.1⟩

end Module

end Coglet.Control
