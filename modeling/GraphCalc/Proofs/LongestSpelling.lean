import GraphCalc.Proofs.Literals

set_option autoImplicit false

namespace GraphCalc

namespace Spelling

def fits (afterDigit : Bool) (chars : List Char) (s : Spelling) : Bool :=
  s.text.isPrefixOf chars && !(afterDigit && s.text == tenPower)

def longestOf (candidates : List Spelling) : Option Spelling := candidates.foldl longer none

theorem longest_kept (keep : Spelling → Bool) (afterDigit : Bool) (chars : List Char)
    (kept : ∀ s ∈ all, s.text <+: chars → keep s = true) :
    longest? afterDigit chars = longestOf ((all.filter keep).filter (fits afterDigit chars)) := by
  rw [List.filter_filter]
  change longestOf (all.filter (fits afterDigit chars)) = _
  congr 1
  apply List.filter_congr
  intro s member
  cases fitting : fits afterDigit chars s with
  | false => rfl
  | true =>
      obtain ⟨begins, _⟩ := Bool.and_eq_true_iff.mp fitting
      rw [kept s member (List.isPrefixOf_iff_prefix.mp begins)]
      rfl

theorem longer_grows (candidates : List Spelling) (found : Spelling) :
    ∃ best, candidates.foldl longer (some found) = some best ∧ found.text.length ≤ best.text.length := by
  induction candidates generalizing found with
  | nil => exact ⟨found, rfl, Nat.le_refl _⟩
  | cons s rest ih =>
      by_cases grows : found.text.length ≤ s.text.length
      · obtain ⟨best, chosen, bound⟩ := ih s
        refine ⟨best, ?_, Nat.le_trans grows bound⟩
        rw [List.foldl_cons, longer, if_pos grows, chosen]
      · obtain ⟨best, chosen, bound⟩ := ih found
        refine ⟨best, ?_, bound⟩
        rw [List.foldl_cons, longer, if_neg grows, chosen]

theorem longer_bounds (candidates : List Spelling) (found : Option Spelling) (s : Spelling) (member : s ∈ candidates) :
    ∃ best, candidates.foldl longer found = some best ∧ s.text.length ≤ best.text.length := by
  induction candidates generalizing found with
  | nil => cases member
  | cons first rest ih =>
      rcases List.mem_cons.mp member with rfl | later
      · obtain ⟨kept, step, bound⟩ : ∃ kept, longer found s = some kept ∧ s.text.length ≤ kept.text.length := by
          cases found with
          | none => exact ⟨s, rfl, Nat.le_refl _⟩
          | some best =>
              by_cases grows : best.text.length ≤ s.text.length
              · exact ⟨s, if_pos grows, Nat.le_refl _⟩
              · exact ⟨best, if_neg grows, Nat.le_of_not_le grows⟩
        obtain ⟨best, chosen, grown⟩ := longer_grows rest kept
        exact ⟨best, by rw [List.foldl_cons, step, chosen], Nat.le_trans bound grown⟩
      · exact ih _ later

theorem longest_maximal (afterDigit : Bool) (chars : List Char) (s : Spelling) (member : s ∈ all)
    (fitting : fits afterDigit chars s = true) :
    ∃ best ∈ all, longest? afterDigit chars = some best ∧ best.text <+: chars ∧ s.text.length ≤ best.text.length := by
  obtain ⟨best, found, bound⟩ := longer_bounds _ none s (List.mem_filter.mpr ⟨member, fitting⟩)
  obtain ⟨inTable, begins⟩ := longest_found afterDigit chars best found
  exact ⟨best, inTable, found, begins, bound⟩

def starting (c : Char) : List Spelling := all.filter fun s => s.text.head? == some c

theorem longest_starting (afterDigit : Bool) (c : Char) (cs : List Char) :
    longest? afterDigit (c :: cs) = longestOf ((starting c).filter (fits afterDigit (c :: cs))) := by
  refine longest_kept _ afterDigit (c :: cs) fun s member begins => ?_
  obtain ⟨rest, text⟩ := begins
  cases split : s.text with
  | nil => exact absurd split (table.1 s member).1
  | cons d ds =>
      rw [split] at text
      cases text
      simp

end Spelling

namespace Reading

theorem after_outside (r : Reading) (c : Char) (bytes : Bytes) (used : Nat) (outside : r.inString = false)
    (notQuote : bytes ≠ [Byte.quote]) : (r.after c bytes used).inString = false := by
  by_cases line : c = '\n'
  · rw [after, if_pos line]
  · rw [after, if_neg line]
    simp [outside, notQuote]

theorem after_digit (r : Reading) (c : Char) (bytes : Bytes) (used : Nat) (b : UInt8) (other : c ≠ '\n')
    (last : bytes.getLast? = some b) :
    (r.after c bytes used).afterDigit = (decide (Byte.digitZero ≤ b) && decide (b ≤ Byte.decimalPoint)) := by
  rw [after, if_neg other, last]
  rfl

end Reading

theorem tokenize_spelled (r : Reading) (c : Char) (cs : List Char) (s : Spelling) (b : UInt8)
    (outside : r.inString = false) (visible : c ∉ ['\n', '\r', ' ', '\t'])
    (found : Spelling.longest? r.afterDigit (c :: cs) = some s) (single : s.bytes = [b]) (notQuote : b ≠ Byte.quote) :
    ∃ r' : Reading, r'.inString = false ∧
      r'.afterDigit = (decide (Byte.digitZero ≤ b) && decide (b ≤ Byte.decimalPoint)) ∧
      tokenizeFrom r (c :: cs) = (tokenizeFrom r' (cs.drop (s.text.length - 1))).map (b :: ·) := by
  refine ⟨r.after c [b] (s.text.length - 1), ?_, ?_, ?_⟩
  · exact r.after_outside c [b] _ outside (by simpa using notQuote)
  · exact r.after_digit c [b] _ b (fun line => visible (by simp [line])) rfl
  · apply tokenize_from_cons
    rw [r.read_outside cs c outside visible, Reading.token?, found, ← single]
    rfl

end GraphCalc
