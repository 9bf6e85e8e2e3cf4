import Coglet.Backend.SysVClasses

open StructLayout RegisterPassing
open Coglet.Target (AbiShape TargetInfo)

-- The bytes that the classification records as used in each eightbyte.

namespace Coglet.Backend.Llvm

-- A scalar in the eightbyte that has the byte `n` of it, or a byte behind that.
def Finding.Reaches (eightbyte n : Nat) : Finding → Prop
  | scalar offset size _ => n < 8 ∧ 0 < size ∧ offset < eightbyte * 8 + 8 ∧ eightbyte * 8 + n < offset + size
  | unaligned | large => False

structure Uses (F : Finding → Prop) (out out' : SysVClassification) : Prop where
  consistent : out'.Consistent
  used       : out'.memory = false → ∀ k n,
    (n < out'.usedBytes k ↔ n < out.usedBytes k ∨ ∃ f, F f ∧ f.Reaches k n)

section Range

variable {out : SysVClassification} {cls : RegClass}

theorem markChunk_used {stop chunk : Nat} (ho : out.memory = false) (hc : out.Consistent) (hk : chunk < 2) (k n : Nat) :
    n < (out.markChunk stop (sysvClass cls) chunk).usedBytes k ↔
      n < out.usedBytes k ∨ k = chunk ∧ n < 8 ∧ chunk * 8 + n < stop := by
  have ⟨hm, _⟩ := @mergeSysvClass_eq cls _ (hc.memory chunk)
  have hu : n < (if stop < chunk * 8 + 8 then stop else chunk * 8 + 8) - chunk * 8 ↔ n < 8 ∧ chunk * 8 + n < stop := by
    split <;> omega
  unfold SysVClassification.markChunk
  rw [ho, if_neg Bool.false_ne_true, if_neg (Nat.not_le_of_lt hk)]
  dsimp only
  rw [if_neg hm, ← hu]
  generalize (if stop < chunk * 8 + 8 then stop else chunk * 8 + 8) - chunk * 8 = used
  rw [apply_ite SysVClassification.usedBytes, ite_apply]
  dsimp only
  by_cases hkc : k = chunk
  case pos =>
    subst hkc
    rw [if_pos rfl, and_iff_right rfl]
    split <;> omega
  case neg =>
    rw [if_neg hkc, ite_self]
    simp [hkc]

theorem foldl_markChunk_used {stop : Nat} {chunks : List Nat} (ho : out.memory = false) (hc : out.Consistent)
    (hk : ∀ k ∈ chunks, k < 2 ∧ k * 8 < stop) (k n : Nat) :
    n < (chunks.foldl (SysVClassification.markChunk stop (sysvClass cls)) out).usedBytes k ↔
      n < out.usedBytes k ∨ k ∈ chunks ∧ n < 8 ∧ k * 8 + n < stop := by
  induction chunks generalizing out
  case nil => simp
  case cons chunk chunks ih =>
    have ⟨hk2, hks⟩ := hk chunk (.head _)
    have ⟨ho', hc', _⟩ := @markChunk_eq out cls stop chunk ho hc hk2 hks
    rw [List.foldl_cons, ih ho' hc' fun k h => hk k (.tail _ h), markChunk_used ho hc hk2, List.mem_cons, or_assoc]
    apply or_congr_right
    constructor
    case mp =>
      rintro (⟨rfl, h⟩ | ⟨hm, h⟩)
      · exact ⟨.inl rfl, h⟩
      · exact ⟨.inr hm, h⟩
    case mpr =>
      rintro ⟨rfl | hm, h⟩
      · exact .inl ⟨rfl, h⟩
      · exact .inr ⟨hm, h⟩

theorem markRange_uses {offset size : Nat} (ho : out.memory = false) (hc : out.Consistent) :
    Uses (· = .scalar offset size cls) out (out.markRange offset size (sysvClass cls)) := by
  have hconsistent := (@markRange_marks _ cls offset size ho hc).consistent
  refine ⟨hconsistent, fun hm k n => ?_⟩
  simp only [exists_eq_left, Finding.Reaches]
  unfold SysVClassification.markRange at hm ⊢
  rw [ho] at hm ⊢
  split at hm
  case isTrue hz =>
    rw [if_pos hz]
    simp at hz
    simp [hz]
  case isFalse hz =>
    rw [if_neg hz]
    have hz : 0 < size := Nat.pos_of_ne_zero fun h => hz (.inr h)
    split at hm
    case isTrue hl => cases hm
    case isFalse hl =>
      have hk : ∀ k ∈ List.range' (offset / 8) ((offset + size - 1) / 8 + 1 - offset / 8),
          k < 2 ∧ k * 8 < offset + size := by
        intro k hk
        have := (mem_chunks hz).mp hk
        omega
      rw [if_neg hl, foldl_markChunk_used ho hc hk, mem_chunks hz]
      apply or_congr_right
      omega

end Range

theorem Uses.account : Account Uses where
  consistent h := h.consistent
  none _ hc := ⟨hc, by simp⟩
  toMemory hc _ _ := ⟨⟨hc.memory, hc.used⟩, fun h => Bool.noConfusion h⟩
  stop h ht := ⟨h.consistent, fun hf => Bool.noConfusion (hf.symm.trans ht)⟩
  seq h hm h' := by
    refine ⟨h'.consistent, fun hm' k n => ?_⟩
    rw [h'.used hm' k n, h.used hm k n, or_assoc]
    simp only [or_and_right, exists_or]
  range := markRange_uses

end Coglet.Backend.Llvm
