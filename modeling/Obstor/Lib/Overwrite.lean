import Mathlib

/-!
# A log of slots that later writes take over

A write puts items into consecutive slots of a log. It first drops what the log has in these slots,
and then appends its own items, so the log is in the order of the writes, not of the slots.
-/

namespace Obstor.Lib

open List

variable {α : Type}

/-- Items for the slots from `off` on. -/
structure Write (α : Type) where
  off : ℕ
  items : List α

namespace Write

/-- The slot is one of those the write takes. -/
def Covers (w : Write α) (slot : ℕ) : Prop := w.off ≤ slot ∧ slot < w.off + w.items.length

instance (w : Write α) (slot : ℕ) : Decidable (w.Covers slot) := inferInstanceAs (Decidable (_ ∧ _))

/-- The items with their slots. -/
def entries (w : Write α) : List (α × ℕ) := w.items.zipIdx w.off

end Write

def overwrite (log : List (α × ℕ)) (w : Write α) : List (α × ℕ) :=
  log.filter (fun e => ¬ w.Covers e.2) ++ w.entries

/-- A write that begins where the last items begin, and takes as many slots, replaces them. -/
lemma overwrite_append (kept tail items : List α) (h : tail.length ≤ items.length) :
    overwrite (kept ++ tail).zipIdx ⟨kept.length, items⟩ = (kept ++ items).zipIdx := by
  have hkept : kept.zipIdx.filter (fun e => ¬ (Write.mk kept.length items).Covers e.2) =
      kept.zipIdx := by
    rw [filter_eq_self]
    intro e he
    have hlt := snd_lt_of_mem_zipIdx he
    exact decide_eq_true fun hcovers => absurd hcovers.1 hlt.not_ge
  have htail : (tail.zipIdx kept.length).filter
      (fun e => ¬ (Write.mk kept.length items).Covers e.2) = [] := by
    rw [filter_eq_nil_iff]
    intro e he
    have hle := le_snd_of_mem_zipIdx he
    have hlt : e.2 < kept.length + items.length :=
      (snd_lt_add_of_mem_zipIdx he).trans_le (by omega)
    exact fun hnot => of_decide_eq_true hnot ⟨hle, hlt⟩
  rw [overwrite, zipIdx_append, zipIdx_append, filter_append, zero_add, hkept, htail, append_nil]
  rfl

end Obstor.Lib
